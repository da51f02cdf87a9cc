import Octet.Proofs.Lexemes

/-!
# The grammar of documents

Which sequences of words are JSON documents. The words make a value: a scalar, an array of items or an object of
members, with commas between them and none after the last one. The reader accepts the documents of the grammar,
whatever their blanks and however their strings are escaped, and no other text.

* `Json.Spells`, `Json.Writes`: words of a value, and documents.
* `Json.ofLexemes_of_spells`: **the value of words is found.**
* `Json.spells_of_ofLexemes`: **a value that is found is spelled by the words.**
* `Json.parse_eq_some_iff`: **the reader accepts exactly the documents, as their values.**
-/

namespace Octet.Json

/-- What a sequence of words can make: a value, the items of an array, or the members of an object. -/
inductive Form where
  | value (v : Json)
  | items (xs : List Json)
  | members (ms : List (String × Json))

/-- The words of a value, of items and of members. -/
inductive Spells : Form → List Lexeme → Prop
  | null : Spells (.value .null) [.null]
  | bool (b : Bool) : Spells (.value (.bool b)) [.bool b]
  | number (text : String) : Spells (.value (.number text)) [.number text]
  | string (s : String) : Spells (.value (.string s)) [.string s]
  | emptyArray : Spells (.value (.array [])) [.mark '[', .mark ']']
  | array {xs : List Json} {words : List Lexeme} :
    Spells (.items xs) words → Spells (.value (.array xs)) (.mark '[' :: (words ++ [.mark ']']))
  | emptyObject : Spells (.value (.object [])) [.mark '\x7b', .mark '\x7d']
  | object {ms : List (String × Json)} {words : List Lexeme} :
    Spells (.members ms) words → Spells (.value (.object ms)) (.mark '\x7b' :: (words ++ [.mark '\x7d']))
  | item {x : Json} {words : List Lexeme} : Spells (.value x) words → Spells (.items [x]) words
  | items {x : Json} {xs : List Json} {words rest : List Lexeme} :
    Spells (.value x) words → Spells (.items xs) rest → Spells (.items (x :: xs)) (words ++ .mark ',' :: rest)
  | member {key : String} {x : Json} {words : List Lexeme} :
    Spells (.value x) words → Spells (.members [(key, x)]) (.string key :: .mark ':' :: words)
  | members {key : String} {x : Json} {ms : List (String × Json)} {words rest : List Lexeme} :
    Spells (.value x) words → Spells (.members ms) rest →
      Spells (.members ((key, x) :: ms)) (.string key :: .mark ':' :: (words ++ .mark ',' :: rest))

/-- A text that is a document with a given value. -/
def Writes (v : Json) (text : String) : Prop :=
  ∃ words, Spells (.value v) words ∧ Laid words text.toList

theorem isChain_mark {words : List Lexeme} (h : words.IsChain Lexeme.Apart) (c : Char) :
    (Lexeme.mark c :: words).IsChain Lexeme.Apart :=
  List.isChain_cons.2 ⟨fun _ _ => Or.inl ⟨c, rfl⟩, h⟩

theorem isChain_append_mark {words rest : List Lexeme} (h : words.IsChain Lexeme.Apart)
    (hrest : rest.IsChain Lexeme.Apart) (c : Char) : (words ++ Lexeme.mark c :: rest).IsChain Lexeme.Apart := by
  refine List.isChain_append.2 ⟨h, isChain_mark hrest c, ?_⟩
  intro word _ next hnext
  cases hnext
  exact Or.inr ⟨c, rfl⟩

/-- Of two neighbours among the words of a value one is a mark. -/
theorem Spells.isChain {form : Form} {words : List Lexeme} (h : Spells form words) :
    words.IsChain Lexeme.Apart := by
  have hkey : ∀ {key : String} {words : List Lexeme}, words.IsChain Lexeme.Apart →
      (Lexeme.string key :: .mark ':' :: words).IsChain Lexeme.Apart :=
    fun h => isChain_append_mark (List.isChain_singleton _) h ':'
  induction h with
  | null => exact List.isChain_singleton _
  | bool _ => exact List.isChain_singleton _
  | number _ => exact List.isChain_singleton _
  | string _ => exact List.isChain_singleton _
  | emptyArray => exact isChain_mark (List.isChain_singleton _) _
  | array _ ih => exact isChain_mark (isChain_append_mark ih List.isChain_nil _) _
  | emptyObject => exact isChain_mark (List.isChain_singleton _) _
  | object _ ih => exact isChain_mark (isChain_append_mark ih List.isChain_nil _) _
  | item _ ih => exact ih
  | items _ _ ih ihs => exact isChain_append_mark ih ihs _
  | member _ ih => exact hkey ih
  | members _ _ ih ihs => exact hkey (isChain_append_mark ih ihs _)

/-- What the reader makes of some words when others follow: it finds the form and stops behind it. It has no more
than two calls for each word. -/
def Form.Found : Form → List Lexeme → Prop
  | .value v, words =>
    (∃ word rest, words = word :: rest ∧ word ≠ .mark ']') ∧
      ∀ bound tail, 2 * words.length ≤ bound → valueWithin bound (words ++ tail) = some (v, tail)
  | .items xs, words =>
    (∃ word rest, words = word :: rest ∧ word ≠ .mark ']') ∧
      ∀ bound tail, 2 * words.length < bound →
        itemsWithin bound (words ++ .mark ']' :: tail) = some (xs, tail)
  | .members ms, words =>
    (∃ key rest, words = .string key :: rest) ∧
      ∀ bound tail, 2 * words.length ≤ bound →
        membersWithin bound (words ++ .mark '\x7d' :: tail) = some (ms, tail)

theorem Spells.found {form : Form} {words : List Lexeme} (h : Spells form words) : form.Found words := by
  have hscalar : ∀ {word : Lexeme} {v : Json}, word ≠ .mark ']' →
      (∀ bound tail, valueWithin (bound + 1) (word :: tail) = some (v, tail)) → (Form.value v).Found [word] := by
    intro word v hword hread
    refine ⟨⟨word, [], rfl, hword⟩, ?_⟩
    intro bound tail hbound
    obtain ⟨bound, rfl⟩ : ∃ n, bound = n + 1 := ⟨bound - 1, by simp only [List.length_singleton] at hbound; omega⟩
    exact hread bound tail
  -- each case takes one call off the bound, and what is left of it covers the words of the parts
  induction h with
  | null => exact hscalar (by decide) fun _ _ => by simp [valueWithin]
  | bool b => exact hscalar (by simp) fun _ _ => by simp [valueWithin]
  | number text => exact hscalar (by simp) fun _ _ => by simp [valueWithin]
  | string s => exact hscalar (by simp) fun _ _ => by simp [valueWithin]
  | emptyArray =>
    refine ⟨⟨_, _, rfl, by decide⟩, ?_⟩
    intro bound tail hbound
    simp only [List.length_cons, List.length_nil] at hbound
    obtain ⟨bound, rfl⟩ : ∃ n, bound = n + 1 := ⟨bound - 1, by omega⟩
    simp [valueWithin]
  | @array xs words _ ih =>
    obtain ⟨⟨word, rest, rfl, hword⟩, hread⟩ := ih
    refine ⟨⟨_, _, rfl, by decide⟩, ?_⟩
    intro bound tail hbound
    simp only [List.length_cons, List.length_append, List.length_nil] at hbound
    obtain ⟨bound, rfl⟩ : ∃ n, bound = n + 1 := ⟨bound - 1, by omega⟩
    have hitems := hread bound tail (by simp only [List.length_cons]; omega)
    simp only [List.cons_append] at hitems
    simp [valueWithin, hword, hitems]
  | emptyObject =>
    refine ⟨⟨_, _, rfl, by decide⟩, ?_⟩
    intro bound tail hbound
    simp only [List.length_cons, List.length_nil] at hbound
    obtain ⟨bound, rfl⟩ : ∃ n, bound = n + 1 := ⟨bound - 1, by omega⟩
    simp [valueWithin]
  | @object ms words _ ih =>
    obtain ⟨⟨key, rest, rfl⟩, hread⟩ := ih
    refine ⟨⟨_, _, rfl, by decide⟩, ?_⟩
    intro bound tail hbound
    simp only [List.length_cons, List.length_append, List.length_nil] at hbound
    obtain ⟨bound, rfl⟩ : ∃ n, bound = n + 1 := ⟨bound - 1, by omega⟩
    have hmembers := hread bound tail (by simp only [List.length_cons]; omega)
    simp only [List.cons_append] at hmembers
    simp [valueWithin, hmembers]
  | item _ ih =>
    refine ⟨ih.1, ?_⟩
    intro bound tail hbound
    obtain ⟨bound, rfl⟩ : ∃ n, bound = n + 1 := ⟨bound - 1, by omega⟩
    simp [itemsWithin, ih.2 bound _ (by omega)]
  | @items x xs words rest _ _ ih ihs =>
    obtain ⟨⟨word, others, hwords, hword⟩, hread⟩ := ih
    refine ⟨⟨word, others ++ .mark ',' :: rest, by rw [hwords, List.cons_append], hword⟩, ?_⟩
    intro bound tail hbound
    simp only [List.length_append, List.length_cons] at hbound
    obtain ⟨bound, rfl⟩ : ∃ n, bound = n + 1 := ⟨bound - 1, by omega⟩
    simp [itemsWithin, hread bound _ (by omega), ihs.2 bound tail (by omega)]
  | member _ ih =>
    refine ⟨⟨_, _, rfl⟩, ?_⟩
    intro bound tail hbound
    simp only [List.length_cons] at hbound
    obtain ⟨bound, rfl⟩ : ∃ n, bound = n + 1 := ⟨bound - 1, by omega⟩
    simp [membersWithin, ih.2 bound _ (by omega)]
  | members _ _ ih ihs =>
    refine ⟨⟨_, _, rfl⟩, ?_⟩
    intro bound tail hbound
    simp only [List.length_append, List.length_cons] at hbound
    obtain ⟨bound, rfl⟩ : ∃ n, bound = n + 1 := ⟨bound - 1, by omega⟩
    simp [membersWithin, ih.2 bound _ (by omega), ihs.2 bound tail (by omega)]

/-- **The value of words is found.** -/
theorem ofLexemes_of_spells {v : Json} {words : List Lexeme} (h : Spells (.value v) words) :
    ofLexemes words = some v := by
  have hread := h.found.2 (2 * words.length + 1) [] (Nat.le_succ _)
  rw [List.append_nil] at hread
  rw [ofLexemes, hread]

/-- What the reader finds within a bound is spelled by the words in front of those that it leaves. -/
structure Faithful (bound : Nat) : Prop where
  value : ∀ {words v rest}, valueWithin bound words = some (v, rest) →
    ∃ taken, Spells (.value v) taken ∧ words = taken ++ rest
  items : ∀ {words xs rest}, itemsWithin bound words = some (xs, rest) →
    ∃ taken, Spells (.items xs) taken ∧ words = taken ++ .mark ']' :: rest
  members : ∀ {words ms rest}, membersWithin bound words = some (ms, rest) →
    ∃ taken, Spells (.members ms) taken ∧ words = taken ++ .mark '\x7d' :: rest

namespace Faithful

theorem zero : Faithful 0 where
  value h := by
    rw [valueWithin] at h
    cases h
  items h := by
    rw [itemsWithin] at h
    cases h
  members h := by
    rw [membersWithin] at h
    cases h

variable {bound : Nat} {words rest : List Lexeme}

theorem value_succ (h : Faithful bound) {v : Json} (hv : valueWithin (bound + 1) words = some (v, rest)) :
    ∃ taken, Spells (.value v) taken ∧ words = taken ++ rest := by
  unfold valueWithin at hv
  split at hv
  case h_1 hbound => cases hbound
  case h_2 word words hbound =>
    cases hbound
    cases word with
    | null => cases hv; exact ⟨_, .null, rfl⟩
    | bool b => cases hv; exact ⟨_, .bool b, rfl⟩
    | number text => cases hv; exact ⟨_, .number text, rfl⟩
    | string s => cases hv; exact ⟨_, .string s, rfl⟩
    | mark c =>
      dsimp only at hv
      split_ifs at hv with hbracket hbrace
      · rw [beq_iff_eq] at hbracket
        subst hbracket
        split at hv
        · cases hv
          exact ⟨_, .emptyArray, rfl⟩
        · obtain ⟨⟨xs, r⟩, hxs, heq⟩ := Option.map_eq_some_iff.1 hv
          obtain ⟨taken, hspells, rfl⟩ := h.items hxs
          cases heq
          exact ⟨_, .array hspells, by simp⟩
      · rw [beq_iff_eq] at hbrace
        subst hbrace
        split at hv
        · cases hv
          exact ⟨_, .emptyObject, rfl⟩
        · obtain ⟨⟨ms, r⟩, hms, heq⟩ := Option.map_eq_some_iff.1 hv
          obtain ⟨taken, hspells, rfl⟩ := h.members hms
          cases heq
          exact ⟨_, .object hspells, by simp⟩
  case h_3 => cases hv

theorem items_succ (h : Faithful bound) {xs : List Json} (hxs : itemsWithin (bound + 1) words = some (xs, rest)) :
    ∃ taken, Spells (.items xs) taken ∧ words = taken ++ .mark ']' :: rest := by
  rw [itemsWithin] at hxs
  split at hxs
  case h_1 hx =>
    obtain ⟨⟨xs, r⟩, hxs, heq⟩ := Option.map_eq_some_iff.1 hxs
    obtain ⟨taken, hspells, rfl⟩ := h.value hx
    obtain ⟨others, hothers, rfl⟩ := h.items hxs
    cases heq
    exact ⟨_, .items hspells hothers, by simp⟩
  case h_2 hx =>
    obtain ⟨taken, hspells, rfl⟩ := h.value hx
    cases hxs
    exact ⟨_, .item hspells, rfl⟩
  case h_3 => cases hxs

theorem members_succ (h : Faithful bound) {ms : List (String × Json)}
    (hms : membersWithin (bound + 1) words = some (ms, rest)) :
    ∃ taken, Spells (.members ms) taken ∧ words = taken ++ .mark '\x7d' :: rest := by
  unfold membersWithin at hms
  split at hms
  case h_1 hbound => cases hbound
  case h_2 hbound =>
    cases hbound
    split at hms
    case h_1 hx =>
      obtain ⟨⟨ms, r⟩, hms, heq⟩ := Option.map_eq_some_iff.1 hms
      obtain ⟨taken, hspells, rfl⟩ := h.value hx
      obtain ⟨others, hothers, rfl⟩ := h.members hms
      cases heq
      exact ⟨_, .members hspells hothers, by simp⟩
    case h_2 hx =>
      obtain ⟨taken, hspells, rfl⟩ := h.value hx
      cases hms
      exact ⟨_, .member hspells, rfl⟩
    case h_3 => cases hms
  case h_3 => cases hms

end Faithful

theorem faithful (bound : Nat) : Faithful bound := by
  induction bound with
  | zero => exact .zero
  | succ bound ih => exact ⟨ih.value_succ, ih.items_succ, ih.members_succ⟩

/-- **A value that is found is spelled by the words.** -/
theorem spells_of_ofLexemes {v : Json} {words : List Lexeme} (h : ofLexemes words = some v) :
    Spells (.value v) words := by
  unfold ofLexemes at h
  split at h
  case h_1 hread =>
    obtain ⟨taken, hspells, rfl⟩ := (faithful _).value hread
    cases h
    rwa [List.append_nil]
  case h_2 => cases h

/-- **The reader accepts exactly the documents, as their values.** -/
theorem parse_eq_some_iff {v : Json} {text : String} : parse text = some v ↔ Writes v text := by
  rw [parse, Option.bind_eq_some_iff]
  constructor
  · rintro ⟨words, hwords, hvalue⟩
    exact ⟨words, spells_of_ofLexemes hvalue, laid_of_lexemes hwords⟩
  · rintro ⟨words, hspells, hlaid⟩
    exact ⟨words, lexemes_of_laid hlaid hspells.isChain, ofLexemes_of_spells hspells⟩

end Octet.Json
