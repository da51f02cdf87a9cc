import Mathlib.Data.List.Forall2
import Mathlib.Data.List.Nodup
import Octet.Settings.Document
import Octet.Proofs.Documents
import Octet.Proofs.Numerals

/-!
# Settings and the documents that write them

Settings are written as a record of two records. A record is an object with its fields in any order, where fields
with the standard value may be left out, or an array of its fields in their order, where the last ones may be. All
documents of some settings are read as these settings. A document that has a member too many in one of its objects,
because the key is no field or is there already, is refused.

* `Json.Field`, `Json.IsRecord`: fields, and the values that are a record of them.
* `Json.Fills.field?`: **a field is read as the value that it is written with.**
* `Json.AddsMember`, `Json.Within`: one member too many, in a record or in a part of it.
* `Settings.WrittenAs`, `Settings.Spoils`: the values that write settings, and what makes them unfit.
* `Settings.parse_written`: **documents of settings are read as the settings, and spoiled ones are refused.**
-/

namespace Octet

namespace Json

/-- A field of a record: its name, the values that write it, and whether it has the standard value. -/
structure Field where
  name : String
  Written : Json → Prop
  Standard : Prop

/-- Members that are fields, each at most once, with no field missing but such with the standard value. -/
structure Fills (fields : List Field) (members : List (String × Json)) : Prop where
  nodup : (members.map Prod.fst).Nodup
  written : ∀ member ∈ members, ∃ field ∈ fields, field.name = member.1 ∧ field.Written member.2
  missing : ∀ field ∈ fields, field.name ∉ members.map Prod.fst → field.Standard

/-- The values that are a record of some fields. -/
inductive IsRecord (fields : List Field) : Json → Prop
  | object {members : List (String × Json)} : Fills fields members → IsRecord fields (.object members)
  | array {front back : List Field} {items : List Json} :
    fields = front ++ back → List.Forall₂ Field.Written front items → (∀ field ∈ back, field.Standard) →
      IsRecord fields (.array items)

/-- A field that is a record of its own. It has the standard value if all its fields have it. -/
def Field.record (name : String) (fields : List Field) : Field :=
  ⟨name, IsRecord fields, ∀ field ∈ fields, field.Standard⟩

/-- The second object has one member more than the first one, with a key that is no name or is there already. -/
inductive AddsMember (names : List String) : Json → Json → Prop
  | mk (front back : List (String × Json)) {key : String} {x : Json} :
    key ∉ names ∨ key ∈ (front ++ back).map Prod.fst →
      AddsMember names (.object (front ++ back)) (.object (front ++ (key, x) :: back))

/-- Two values that differ in one part only, and there in a given way. The names are those of the items of an
array. -/
inductive Within (names : List String) (part : String) (Differ : Json → Json → Prop) : Json → Json → Prop
  | member (front back : List (String × Json)) {x x' : Json} : Differ x x' →
    Within names part Differ (.object (front ++ (part, x) :: back)) (.object (front ++ (part, x') :: back))
  | item (front back : List Json) {x x' : Json} : names[front.length]? = some part → Differ x x' →
    Within names part Differ (.array (front ++ x :: back)) (.array (front ++ x' :: back))

variable {α : Type} {fields : List Field} {names : List String} {members : List (String × Json)} {v v' : Json}

theorem map_fst_zip_sublist (names : List String) : ∀ items : List Json,
    ((names.zip items).map Prod.fst).Sublist names := by
  induction names with
  | nil => intro items; exact List.Sublist.refl _
  | cons name names ih =>
    intro items
    cases items with
    | nil => exact List.nil_sublist _
    | cons x items => exact (ih items).cons_cons name

/-- A record that is accepted has no key twice. -/
theorem nodup_of_record? (hnames : names.Nodup) (h : v.record? names = some members) :
    (members.map Prod.fst).Nodup := by
  unfold record? at h
  split at h
  case h_1 =>
    dsimp only at h
    split at h
    · next hkeys =>
      cases h
      exact of_decide_eq_true ((Bool.and_eq_true _ _).mp hkeys).2
    · cases h
  case h_2 items =>
    split at h
    · cases h
      exact hnames.sublist (map_fst_zip_sublist names items)
    · cases h
  case h_3 => cases h

/-- A member is read wherever it is, if no other has its key. -/
theorem field?_of_mem (hmembers : (members.map Prod.fst).Nodup) {name : String} {x : Json} (hx : (name, x) ∈ members)
    (standard : α) (read? : Json → Option α) : field? members name standard read? = read? x := by
  unfold field?
  cases hfound : members.find? fun member => member.1 == name with
  | some member =>
    have hname : member.1 = name := by
      simpa using List.find?_some hfound
    rw [List.inj_on_of_nodup_map hmembers (List.mem_of_find?_eq_some hfound) hx hname]
  | none => exact absurd (List.find?_eq_none.1 hfound _ hx) (by simp)

theorem field?_of_not_mem {name : String} (hname : name ∉ members.map Prod.fst) (standard : α)
    (read? : Json → Option α) : field? members name standard read? = some standard := by
  have hnone : members.find? (fun member => member.1 == name) = none := by
    rw [List.find?_eq_none]
    intro member hmember heq
    exact hname (beq_iff_eq.1 heq ▸ List.mem_map_of_mem hmember)
  rw [field?, hnone]

/-- The items of an array fill the record like members with the names of the fields. -/
theorem fills_zip {front back : List Field} {items : List Json} (hnames : (fields.map Field.name).Nodup)
    (hfields : fields = front ++ back) (hitems : List.Forall₂ Field.Written front items)
    (hback : ∀ field ∈ back, field.Standard) : Fills fields ((fields.map Field.name).zip items) := by
  have hlength : (front.map Field.name).length = items.length := by
    rw [List.length_map, hitems.length_eq]
  have hzip : (fields.map Field.name).zip items = (front.map Field.name).zip items := by
    have happend : (front.map Field.name ++ back.map Field.name).zip (items ++ []) = _ := List.zip_append hlength
    rwa [List.append_nil, List.zip_nil_right, List.append_nil, ← List.map_append, ← hfields] at happend
  refine ⟨hnames.sublist (map_fst_zip_sublist _ items), ?_, ?_⟩
  · rintro ⟨name, x⟩ hmember
    rw [hzip, List.zip_map_left, List.mem_map] at hmember
    obtain ⟨⟨field, x'⟩, hpair, heq⟩ := hmember
    cases heq
    have hfield : field ∈ fields := by
      rw [hfields]
      exact List.mem_append_left _ (List.of_mem_zip hpair).1
    exact ⟨field, hfield, rfl, List.forall₂_zip hitems hpair⟩
  · intro field hfield hmissing
    rw [hzip, List.map_fst_zip (Nat.le_of_eq hlength)] at hmissing
    rw [hfields] at hfield
    rcases List.mem_append.1 hfield with hfront | hfield
    · exact absurd (List.mem_map_of_mem hfront) hmissing
    · exact hback field hfield

/-- A record is accepted, and its members fill it. -/
theorem exists_fills (hnames : (fields.map Field.name).Nodup) (h : IsRecord fields v) :
    ∃ members, v.record? (fields.map Field.name) = some members ∧ Fills fields members := by
  cases h with
  | @object members hfills =>
    have hkeys : (members.map Prod.fst).all (fields.map Field.name).contains = true := by
      simp only [List.all_eq_true, List.contains_iff_mem]
      intro key hkey
      obtain ⟨member, hmember, rfl⟩ := List.mem_map.1 hkey
      obtain ⟨field, hfield, hname, -⟩ := hfills.written member hmember
      exact hname ▸ List.mem_map_of_mem hfield
    refine ⟨members, ?_, hfills⟩
    simp only [record?, hkeys, hfills.nodup, decide_true, Bool.and_self, if_true]
  | array hfields hitems hback =>
    refine ⟨_, ?_, fills_zip hnames hfields hitems hback⟩
    rw [record?, if_pos]
    rw [hfields, List.map_append, List.length_append, List.length_map, hitems.length_eq]
    exact Nat.le_add_right _ _

/-- **A field is read as the value that it is written with**, or as the standard value if it is missing. -/
theorem Fills.field? (h : Fills fields members) (hnames : (fields.map Field.name).Nodup) {field : Field}
    (hfield : field ∈ fields) {standard a : α} {read? : Json → Option α}
    (hread : ∀ x, field.Written x → read? x = some a) (hstandard : field.Standard → standard = a) :
    Json.field? members field.name standard read? = some a := by
  by_cases hname : field.name ∈ members.map Prod.fst
  · obtain ⟨⟨name, x⟩, hmember, heq⟩ := List.mem_map.1 hname
    obtain ⟨other, hother, hsame, hwritten⟩ := h.written _ hmember
    cases heq
    -- no other field has the name
    have hother : other = field := List.inj_on_of_nodup_map hnames hother hfield hsame
    rw [field?_of_mem h.nodup hmember, hread x (hother ▸ hwritten)]
  · rw [field?_of_not_mem hname, hstandard (h.missing field hfield hname)]

/-- A record with a member too many is refused. -/
theorem record?_of_addsMember (h : AddsMember names v v') : v'.record? names = none := by
  obtain ⟨front, back, hkey⟩ := h
  rw [record?, if_neg]
  intro hkeys
  rw [Bool.and_eq_true, List.all_eq_true, decide_eq_true_eq] at hkeys
  obtain ⟨hnames, hnodup⟩ := hkeys
  rcases hkey with hkey | hkey
  · exact hkey (List.contains_iff_mem.1 (hnames _ (by simp)))
  · rw [List.map_append, List.map_cons, List.nodup_middle] at hnodup
    exact (List.nodup_cons.1 hnodup).1 (by rwa [← List.map_append])

/-- A part that cannot be read is found in every record that is accepted. -/
theorem Within.field? {part : String} {Differ : Json → Json → Prop} (h : Within names part Differ v v')
    (hnames : names.Nodup) (hmembers : v'.record? names = some members) {read? : Json → Option α}
    (hread : ∀ x x', Differ x x' → read? x' = none) (standard : α) :
    Json.field? members part standard read? = none := by
  have hnodup := nodup_of_record? hnames hmembers
  cases h with
  | @member front back x x' hdiffer =>
    have hmem : (part, x') ∈ members := by
      rw [record?] at hmembers
      split at hmembers
      · cases hmembers
        simp
      · cases hmembers
    rw [field?_of_mem hnodup hmem, hread x x' hdiffer]
  | @item front back x x' hpart hdiffer =>
    have hmem : (part, x') ∈ members := by
      rw [record?] at hmembers
      split at hmembers
      · cases hmembers
        refine List.mem_of_getElem? (i := front.length) (List.getElem?_zip_eq_some.2 ⟨hpart, ?_⟩)
        simp
      · cases hmembers
    rw [field?_of_mem hnodup hmem, hread x x' hdiffer]

end Json

/-- The names of a mode in documents. -/
def CwdMode.spellings : CwdMode → List String
  | writeThrough => ["WriteThrough", "write_through"]
  | rebind => ["Rebind", "rebind"]

namespace Settings

open Json

/-- The values that write a bound on the steps. -/
inductive WritesBound : Option UInt64 → Json → Prop
  | none : WritesBound none .null
  | some (n : UInt64) : WritesBound (some n) (.number (Numeral.decimal n.toNat))

/-- The general part of settings. -/
def generalFields (c : Settings) : List Field :=
  [⟨"trace_instructions", fun x => x = .bool c.trace, c.trace = standard.trace⟩,
    ⟨"max_steps", WritesBound c.maxSteps, c.maxSteps = standard.maxSteps⟩]

/-- The engine part of settings. -/
def engineFields (c : Settings) : List Field :=
  [⟨"cwd_mode", fun x => ∃ name ∈ c.cwdMode.spellings, x = .string name, c.cwdMode = standard.cwdMode⟩]

/-- The two parts of settings. -/
def fields (c : Settings) : List Field :=
  [.record "general" c.generalFields, .record "engine" c.engineFields]

theorem names_generalFields (c : Settings) : c.generalFields.map Field.name = ["trace_instructions", "max_steps"] :=
  rfl

theorem names_engineFields (c : Settings) : c.engineFields.map Field.name = ["cwd_mode"] :=
  rfl

theorem names_fields (c : Settings) : c.fields.map Field.name = ["general", "engine"] :=
  rfl

/-- The values that write settings. -/
def WrittenAs (c : Settings) (v : Json) : Prop :=
  IsRecord c.fields v

/-- The second value is the first one with a member too many in one of its objects. -/
inductive Spoils : Json → Json → Prop
  | document {v v' : Json} : AddsMember (standard.fields.map Field.name) v v' → Spoils v v'
  | general {v v' : Json} :
    Within (standard.fields.map Field.name) "general" (AddsMember (standard.generalFields.map Field.name)) v v' →
      Spoils v v'
  | engine {v v' : Json} :
    Within (standard.fields.map Field.name) "engine" (AddsMember (standard.engineFields.map Field.name)) v v' →
      Spoils v v'

/-- A bound is read as it is written, up to the greatest word. -/
theorem optional?_word64? {bound : Option UInt64} {x : Json} (h : WritesBound bound x) :
    optional? word64? x = some bound := by
  cases h with
  | none => rfl
  | some n =>
    have hword : Numeral.word64? (Numeral.decimal n.toNat).toList = Option.some n := by
      rw [Numeral.word64?, Numeral.decimal, String.toList_ofList,
        Numeral.value?_toDigits (by decide) (by decide)]
      have hlt : n.toNat < Numeral.wordBound := n.toNat_lt
      dsimp only
      rw [if_pos hlt, UInt64.ofNat_toNat]
    rw [optional?, word64?, hword]
    · rfl
    · exact fun h => nomatch h

theorem ofName?_spellings {mode : CwdMode} {name : String} (h : name ∈ mode.spellings) :
    CwdMode.ofName? name = some mode := by
  have hall : ∀ mode : CwdMode, ∀ name ∈ mode.spellings, CwdMode.ofName? name = some mode := by
    intro mode
    cases mode <;> decide +kernel
  exact hall mode name h

/-- The general part of a document gives the trace and the bound, and leaves the mode. -/
theorem withGeneral?_of_isRecord {c : Settings} {v : Json} (h : IsRecord c.generalFields v) (s : Settings) :
    s.withGeneral? v = some ⟨c.trace, c.maxSteps, s.cwdMode⟩ := by
  have hnames : (c.generalFields.map Field.name).Nodup := by
    rw [names_generalFields]
    decide
  obtain ⟨members, hmembers, hfills⟩ := exists_fills hnames h
  have htrace : Json.field? members "trace_instructions" standard.trace bool? = some c.trace := by
    refine hfills.field? hnames List.mem_cons_self ?_ Eq.symm
    rintro x rfl
    rfl
  have hbound : Json.field? members "max_steps" standard.maxSteps (optional? word64?) = some c.maxSteps :=
    hfills.field? hnames (List.mem_cons_of_mem _ List.mem_cons_self) (fun _ => optional?_word64?) Eq.symm
  rw [names_generalFields] at hmembers
  simp [withGeneral?, hmembers, htrace, hbound]

/-- The engine part of a document gives the mode, and leaves the rest. -/
theorem withEngine?_of_isRecord {c : Settings} {v : Json} (h : IsRecord c.engineFields v) (s : Settings) :
    s.withEngine? v = some ⟨s.trace, s.maxSteps, c.cwdMode⟩ := by
  have hnames : (c.engineFields.map Field.name).Nodup := by
    rw [names_engineFields]
    decide
  obtain ⟨members, hmembers, hfills⟩ := exists_fills hnames h
  have hmode : Json.field? members "cwd_mode" standard.cwdMode CwdMode.ofJson? = some c.cwdMode := by
    refine hfills.field? hnames List.mem_cons_self ?_ Eq.symm
    rintro x ⟨name, hname, rfl⟩
    exact ofName?_spellings hname
  rw [names_engineFields] at hmembers
  simp [withEngine?, hmembers, hmode]

/-- **The values that write settings are read as the settings.** -/
theorem ofJson?_of_writtenAs {c : Settings} {v : Json} (h : c.WrittenAs v) : ofJson? v = some c := by
  have hnames : (c.fields.map Field.name).Nodup := by
    rw [names_fields]
    decide
  obtain ⟨members, hmembers, hfills⟩ := exists_fills hnames h
  have hgeneral : Json.field? members "general" standard standard.withGeneral? =
      some ⟨c.trace, c.maxSteps, standard.cwdMode⟩ := by
    refine hfills.field? hnames List.mem_cons_self (fun x hx => withGeneral?_of_isRecord hx standard) ?_
    intro hstandard
    have htrace : c.trace = standard.trace := hstandard _ List.mem_cons_self
    have hbound : c.maxSteps = standard.maxSteps := hstandard _ (List.mem_cons_of_mem _ List.mem_cons_self)
    rw [htrace, hbound]
  have hengine : Json.field? members "engine" ⟨c.trace, c.maxSteps, standard.cwdMode⟩
      (withEngine? ⟨c.trace, c.maxSteps, standard.cwdMode⟩) = some c := by
    refine hfills.field? hnames (List.mem_cons_of_mem _ List.mem_cons_self)
      (fun x hx => withEngine?_of_isRecord hx _) ?_
    intro hstandard
    have hmode : c.cwdMode = standard.cwdMode := hstandard _ List.mem_cons_self
    rw [← hmode]
  rw [names_fields] at hmembers
  simp [ofJson?, hmembers, hgeneral, hengine]

theorem withGeneral?_of_addsMember {x x' : Json} (h : AddsMember (standard.generalFields.map Field.name) x x')
    (s : Settings) : s.withGeneral? x' = none := by
  have hrefused := record?_of_addsMember h
  rw [names_generalFields] at hrefused
  simp [withGeneral?, hrefused]

theorem withEngine?_of_addsMember {x x' : Json} (h : AddsMember (standard.engineFields.map Field.name) x x')
    (s : Settings) : s.withEngine? x' = none := by
  have hrefused := record?_of_addsMember h
  rw [names_engineFields] at hrefused
  simp [withEngine?, hrefused]

/-- **Spoiled values are refused**, whatever they were before. -/
theorem ofJson?_of_spoils {v v' : Json} (h : Spoils v v') : ofJson? v' = none := by
  have hnames : (standard.fields.map Field.name).Nodup := by
    rw [names_fields]
    decide
  cases hmembers : v'.record? (standard.fields.map Field.name) with
  | none =>
    rw [names_fields] at hmembers
    simp [ofJson?, hmembers]
  | some members =>
    have hrecord := hmembers
    rw [names_fields] at hrecord
    cases h with
    | document h =>
      rw [record?_of_addsMember h] at hmembers
      cases hmembers
    | general h =>
      have hgeneral : Json.field? members "general" standard standard.withGeneral? = none :=
        h.field? hnames hmembers (fun _ _ hx => withGeneral?_of_addsMember hx standard) standard
      simp [ofJson?, hrecord, hgeneral]
    | engine h =>
      have hengine : ∀ s : Settings, Json.field? members "engine" s s.withEngine? = none :=
        fun s => h.field? hnames hmembers (fun _ _ hx => withEngine?_of_addsMember hx s) s
      simp [ofJson?, hrecord, hengine]

/-- **Documents of settings are read as the settings, and spoiled ones are refused.** A document may have the parts
and their fields in any order, blanks anywhere, escapes in its strings, arrays for objects, and fields missing that
have the standard value. With one member more in one of its objects, at any place and with any value, it is an
error, if the key is not a field or is there already. -/
theorem parse_written {c : Settings} {v : Json} (h : c.WrittenAs v) :
    (∀ text, Json.Writes v text → parse text = .ok c) ∧
      ∀ v', Spoils v v' → ∀ text, Json.Writes v' text → parse text = .error .badSettings := by
  constructor
  · intro text htext
    rw [parse, parse_eq_some_iff.2 htext, Option.bind_some, ofJson?_of_writtenAs h]
  · intro v' hv' text htext
    rw [parse, parse_eq_some_iff.2 htext, Option.bind_some, ofJson?_of_spoils hv']

/-- An array in an object, members in reverse, an escaped key and the greatest bound; and the same with the key of
the bound once more. -/
theorem parse_written_nested :
    let document (more : String) := "\x7b \"engine\" : [\"rebind\"],\n\"gener\\u0061l\":\x7b" ++ more ++
      "\"max_steps\":18446744073709551615,\t\"trace_instructions\":true\x7d\x7d"
    parse (document "") = .ok ⟨true, some 18446744073709551615, .rebind⟩ ∧
      parse (document "\"max_steps\":null,") = .error .badSettings := by
  intro document
  have hbound : WritesBound (some 18446744073709551615) (.number "18446744073709551615") := by
    have hdecimal : Numeral.decimal (18446744073709551615 : UInt64).toNat = "18446744073709551615" := by
      decide +kernel
    exact hdecimal ▸ .some 18446744073709551615
  have hgeneral : IsRecord (generalFields ⟨true, some 18446744073709551615, .rebind⟩)
      (.object [("max_steps", .number "18446744073709551615"), ("trace_instructions", .bool true)]) :=
    .object ⟨by decide, by simp [generalFields, hbound], by simp [generalFields]⟩
  have hengine : IsRecord (engineFields ⟨true, some 18446744073709551615, .rebind⟩) (.array [.string "rebind"]) :=
    .array (List.append_nil _).symm (.cons ⟨"rebind", by decide, rfl⟩ .nil) (by simp)
  have hwritten : WrittenAs ⟨true, some 18446744073709551615, .rebind⟩
      (.object [("engine", .array [.string "rebind"]), ("general",
        .object [("max_steps", .number "18446744073709551615"), ("trace_instructions", .bool true)])]) :=
    .object ⟨by decide, by simp [fields, Field.record, hgeneral, hengine], by simp [fields, Field.record]⟩
  obtain ⟨hread, hspoiled⟩ := parse_written hwritten
  constructor
  · refine hread _ ⟨[.mark '\x7b', .string "engine", .mark ':', .mark '[', .string "rebind", .mark ']', .mark ',',
      .string "general", .mark ':', .mark '\x7b', .string "max_steps", .mark ':', .number "18446744073709551615",
      .mark ',', .string "trace_instructions", .mark ':', .bool true, .mark '\x7d', .mark '\x7d'],
      spells_of_ofLexemes rfl, laid_of_lexemes (by decide +kernel)⟩
  · have hadds : AddsMember (standard.generalFields.map Field.name)
        (.object [("max_steps", .number "18446744073709551615"), ("trace_instructions", .bool true)])
        (.object [("max_steps", .null), ("max_steps", .number "18446744073709551615"),
          ("trace_instructions", .bool true)]) :=
      .mk [] _ (Or.inr (by decide))
    refine hspoiled _ (.general (.member [("engine", .array [.string "rebind"])] [] hadds)) _ ?_
    exact ⟨[.mark '\x7b', .string "engine", .mark ':', .mark '[', .string "rebind", .mark ']', .mark ',',
      .string "general", .mark ':', .mark '\x7b', .string "max_steps", .mark ':', .null, .mark ',',
      .string "max_steps", .mark ':', .number "18446744073709551615", .mark ',', .string "trace_instructions",
      .mark ':', .bool true, .mark '\x7d', .mark '\x7d'],
      spells_of_ofLexemes rfl, laid_of_lexemes (by decide +kernel)⟩

end Settings

end Octet
