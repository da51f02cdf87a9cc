import Octet.Proofs.Grammar
import Octet.Proofs.Observation
import Octet.Proofs.Reprinting
import Octet.Proofs.Tokens

/-!
# What a literal comes to

A literal can have any number of digits. The reader keeps 64 bits of it, and the sign is put before what is
left; a declaration then reduces the number to one or two bytes, and an instruction to the width of its
target. Every width divides 64 bits, so the value is the one that the whole literal denotes, reduced once.

* `Sign`: what can stand before a literal.
* `Token.scanFrom_caseless`: capital letters in a word do not count.
* `Sign.ofInt_apply_mod`: **the bits that the reader drops count at no width.**
* `Machine.run_execute_literal`: what an instruction with a literal does.
* `Statement.literal_exact`: **literals of any length are exact, in declarations and in instructions.**
-/

namespace Octet

open Token

/-- What can stand before the digits of a literal. -/
inductive Sign where
  | absent
  | plus
  | minus
  deriving DecidableEq, Repr

namespace Sign

/-- The sign as it stands in a source line. -/
def text : Sign → String
  | absent => ""
  | plus => "+"
  | minus => "-"

/-- The tokens of the sign. -/
def tokens : Sign → List Token
  | absent => []
  | plus => [.mark '+']
  | minus => [.mark '-']

/-- The number that the sign makes of the digits' number. -/
def apply : Sign → Nat → Int
  | absent, n => n
  | plus, n => n
  | minus, n => -n

end Sign

namespace Token

variable {w : String}

theorem isWordChar_of_toLower {c : Char} (hc : isWordChar c.toLower = true) : isWordChar c = true := by
  apply Classical.byContradiction
  intro hn
  rw [Bool.not_eq_true] at hn
  -- what belongs to no word has no lowercase of its own
  rw [toLower_of_not_isWordChar hn, hn] at hc
  cases hc

theorem isWordChar_of_isWord_toLower (hw : IsWord w.toLower.toList) : ∀ c ∈ w.toList, isWordChar c = true := by
  intro c hc
  have hlower : c.toLower ∈ w.toLower.toList := by
    rw [toList_toLower]
    exact List.mem_map_of_mem hc
  exact isWordChar_of_toLower (hw.char _ hlower).1

/-- **A word in capital or small letters is found in lowercase.** -/
theorem scanFrom_caseless (hw : IsWord w.toLower.toList) : scanFrom [] w.toList = [.word w.toLower] := by
  have hne : w.toList ≠ [] := by
    intro hnil
    exact hw.ne_nil (by rw [toList_toLower, hnil]; rfl)
  rw [scanFrom_run_of_ne_nil hne (isWordChar_of_isWord_toLower hw), ← toList_toLower, String.ofList_toList]

theorem scanFrom_caseless_append (hw : IsWord w.toLower.toList) {c : Char} (hc : isWordChar c = false)
    (rest : List Char) :
    scanFrom [] (w.toList ++ c :: rest) = .word w.toLower :: (ofSeparator c ++ scanFrom [] rest) := by
  rw [scanFrom_append_cons hc, scanFrom_caseless hw]
  rfl

theorem semicolon_not_mem_caseless (hw : IsWord w.toLower.toList) : ';' ∉ w.toList := fun h =>
  absurd (isWordChar_of_isWord_toLower hw _ h) (by decide)

end Token

/-- A literal is one word. -/
theorem isWord_of_isLiteral {w : String} {n : Nat} (h : IsLiteral w n) : IsWord w.toList := by
  have hdigit : ∀ d < 16, isWordChar (Nat.digitChar d) = true ∧ (Nat.digitChar d).toLower = Nat.digitChar d := by
    decide
  cases h with
  | decimal h =>
    rw [String.toList_ofList]
    refine ⟨h.ne_nil, ?_⟩
    intro c hc
    obtain ⟨d, hd, rfl⟩ := h.char c hc
    exact hdigit d (by omega)
  | hexadecimal h =>
    rw [String.toList_ofList]
    refine ⟨by simp, ?_⟩
    rw [List.forall_mem_cons, List.forall_mem_cons]
    refine ⟨by decide, by decide, ?_⟩
    intro c hc
    obtain ⟨d, hd, rfl⟩ := h.char c hc
    exact hdigit d hd

namespace Sign

variable {text : String} {n : Nat}

theorem scanFrom_text (sign : Sign) (htext : IsWord text.toLower.toList) :
    scanFrom [] (sign.text.toList ++ text.toList) = sign.tokens ++ [.word text.toLower] := by
  have hword := scanFrom_caseless htext
  cases sign with
  | absent => exact hword
  | plus =>
    show scanFrom [] ('+' :: text.toList) = _
    rw [scanFrom, if_neg (by decide), hword]
    rfl
  | minus =>
    show scanFrom [] ('-' :: text.toList) = _
    rw [scanFrom, if_neg (by decide), hword]
    rfl

theorem semicolon_not_mem_text (sign : Sign) : ';' ∉ sign.text.toList := by
  cases sign <;> decide

/-- A literal after a sign is read as its low 64 bits, with the sign. -/
theorem spelled (sign : Sign) {w : String} (hw : IsLiteral w n) :
    (Operand.literal (sign.apply (n % Numeral.wordBound))).Spelled (sign.tokens ++ [.word w]) := by
  cases sign with
  | absent => exact .unsigned hw
  | plus => exact .positive hw
  | minus => exact .negative hw

/-- **The bits that the reader drops count at no width.** -/
theorem ofInt_apply_mod (sign : Sign) (n : Nat) (w : Width) :
    Value.ofInt (sign.apply (n % Numeral.wordBound)) w = Value.ofInt (sign.apply n) w := by
  have hmod : ((n % Numeral.wordBound : Nat) : Int) ≡ (n : Int) [ZMOD w.modulus] := w.mod_modEq n
  apply Value.ofInt_eq_ofInt
  cases sign with
  | absent => exact hmod
  | plus => exact hmod
  | minus => exact hmod.neg

end Sign

/-- A value that is reduced from an integer has its remainder. -/
theorem Value.magnitude_ofInt_pow (z : Int) (w : Width) : ((ofInt z w).magnitude : Int) = z % 256 ^ w.bytes := by
  have hmodulus : (w.modulus : Int) = 256 ^ w.bytes := Int.natCast_pow 256 w.bytes
  rw [magnitude_ofInt, hmodulus]

/-- Operations do not tell sources with one remainder apart. -/
theorem Operation.ofInt_eval (operation : Operation) (a z : Int) (w : Width) :
    Value.ofInt (operation.eval a (Value.ofInt z w).magnitude) w = Value.ofInt (operation.eval a z) w := by
  have hmod : ((Value.ofInt z w).magnitude : Int) ≡ z [ZMOD w.modulus] := by
    rw [Value.magnitude_ofInt]
    exact Int.mod_modEq z _
  apply Value.ofInt_eq_ofInt
  cases operation with
  | mov => exact hmod
  | add => exact hmod.add_left a
  | sub => exact hmod.sub_left a

/-- **What an instruction with a literal does.** -/
theorem Machine.run_execute_literal {s : State} {target : String} {v : View}
    (hv : s.machine.scope.lookup? target = some v) (operation : Operation) (z : Int) :
    (execute (.binary operation target (.literal z))).run s =
      .ok () (s.assign target (.ofInt (operation.eval (v.read s.store).magnitude z) v.width)) := by
  have hget : s.machine.scope.get target = .ok v := by
    unfold Scope.get
    rw [hv]
  have hresolve : s.machine.scope.resolve s.store (.literal z) v.width.bytes = .ok (.ofInt z v.width) :=
    Value.make_bytes z v.width
  rw [run_execute, attempt_binary operation hget hresolve, if_pos (Value.width_ofInt z v.width), Operation.ofInt_eval]
  rfl

/-- What has been assigned to a name is read from it. -/
theorem State.read_assign {s : State} (hs : s.environment.Sound) {name : String} {v : View}
    (hv : s.machine.scope.lookup? name = some v) {x : Value} (hx : x.width = v.width) :
    (s.assign name x).machine.read (s.assign name x).store name = .ok x := by
  have hinside : v.Inside s.store := hs name v hv
  have hread := Scope.read_of_lookup? hv (s.store.patch v.handle v.offset x.bytes)
  rw [View.read_patch_self hinside hx] at hread
  rw [machine_assign, store_assign hv]
  exact hread

namespace Statement

variable {name text : String} {n : Nat}

theorem spelled_of_isName (hname : IsName name) : (Operand.name name).Spelled [.word name] :=
  spelled_of_unsigned hname.word (by simp [unsigned, hname.head])

/-- The tokens of a declaration with a literal. -/
theorem scan_define (sign : Sign) (htext : IsWord text.toLower.toList) (hname : IsWord name.toLower.toList)
    (size : DataSize) :
    scan (Opcode.define.mnemonic ++ " " ++ name ++ " " ++ size.tag ++ " " ++ sign.text ++ text) =
      .word Opcode.define.mnemonic :: .word name.toLower :: .word size.tag ::
        (sign.tokens ++ [.word text.toLower]) := by
  have hline : (Opcode.define.mnemonic ++ " " ++ name ++ " " ++ size.tag ++ " " ++ sign.text ++ text).toList =
      Opcode.define.mnemonic.toList ++ ' ' :: (name.toList ++ ' ' ::
        (size.tag.toList ++ ' ' :: (sign.text.toList ++ text.toList))) := by simp
  have hmnemonic : ';' ∉ Opcode.define.mnemonic.toList := by decide
  have htag : ';' ∉ size.tag.toList := by cases size <;> decide
  rw [scan, hline, code_of_not_mem]
  · rw [scanFrom_word_blank Opcode.define.isWord_mnemonic, scanFrom_caseless_append hname (by decide),
      scanFrom_word_blank size.isName_tag.word, sign.scanFrom_text htext]
    rfl
  · simp [hmnemonic, semicolon_not_mem_caseless hname, htag, sign.semicolon_not_mem_text,
      semicolon_not_mem_caseless htext]

/-- The tokens of an operation with a literal. -/
theorem scan_binary (sign : Sign) (htext : IsWord text.toLower.toList) (hname : IsWord name.toLower.toList)
    (operation : Operation) :
    scan (operation.opcode.mnemonic ++ " " ++ name ++ ", " ++ sign.text ++ text) =
      .word operation.opcode.mnemonic :: .word name.toLower :: .mark ',' ::
        (sign.tokens ++ [.word text.toLower]) := by
  have hline : (operation.opcode.mnemonic ++ " " ++ name ++ ", " ++ sign.text ++ text).toList =
      operation.opcode.mnemonic.toList ++ ' ' :: (name.toList ++ ',' :: ' ' ::
        (sign.text.toList ++ text.toList)) := by simp
  have hmnemonic : ';' ∉ operation.opcode.mnemonic.toList := by cases operation <;> decide
  rw [scan, hline, code_of_not_mem]
  · rw [scanFrom_word_blank operation.opcode.isWord_mnemonic, scanFrom_caseless_append hname (by decide), scanFrom,
      if_neg (by decide), sign.scanFrom_text htext]
    rfl
  · simp [hmnemonic, semicolon_not_mem_caseless hname, sign.semicolon_not_mem_text,
      semicolon_not_mem_caseless htext]

/-- A line with a declaration reads as the low 64 bits of its literal, reduced to the size. -/
theorem parse_define (sign : Sign) (htext : IsLiteral text.toLower n) (hname : IsName name.toLower) (number : Nat)
    (size : DataSize) :
    parse number (Opcode.define.mnemonic ++ " " ++ name ++ " " ++ size.tag ++ " " ++ sign.text ++ text) =
      .ok (some (.define (.make name.toLower size (sign.apply (n % Numeral.wordBound))))) := by
  have hforms : Forms Opcode.define.mnemonic
      [.name name.toLower, .name size.tag, .literal (sign.apply (n % Numeral.wordBound))]
      (.define (.make name.toLower size (sign.apply (n % Numeral.wordBound)))) := by
    cases size with
    | byte => exact .byte _ _
    | word => exact .word _ _
  have hspelling : Spelling (.word name.toLower :: .word size.tag :: (sign.tokens ++ [.word text.toLower]))
      [.name name.toLower, .name size.tag, .literal (sign.apply (n % Numeral.wordBound))] := by
    have hliteral := Spelling.operand (sign.spelled htext) .nil
    rw [List.append_nil] at hliteral
    exact .operand (spelled_of_isName hname) (.operand (spelled_of_isName size.isName_tag) hliteral)
  rw [parse_eq_ok_iff, scan_define sign (isWord_of_isLiteral htext) hname.word size]
  exact ofTokens_of_derives (.statement hspelling hforms)

/-- A line with an operation has the low 64 bits of its literal for a source. -/
theorem parse_binary (sign : Sign) (htext : IsLiteral text.toLower n) (hname : IsName name.toLower) (number : Nat)
    (operation : Operation) :
    parse number (operation.opcode.mnemonic ++ " " ++ name ++ ", " ++ sign.text ++ text) =
      .ok (some (.instruction (.binary operation name.toLower (.literal (sign.apply (n % Numeral.wordBound)))))) := by
  have hforms : Forms operation.opcode.mnemonic
      [.name name.toLower, .literal (sign.apply (n % Numeral.wordBound))]
      (.instruction (.binary operation name.toLower (.literal (sign.apply (n % Numeral.wordBound))))) := by
    cases operation with
    | mov => exact .mov _ _
    | add => exact .add _ _
    | sub => exact .sub _ _
  have hspelling : Spelling (.word name.toLower :: .mark ',' :: (sign.tokens ++ [.word text.toLower]))
      [.name name.toLower, .literal (sign.apply (n % Numeral.wordBound))] := by
    have hliteral := Spelling.operand (sign.spelled htext) .nil
    rw [List.append_nil] at hliteral
    exact .operand (spelled_of_isName hname) (.comma hliteral)
  rw [parse_eq_ok_iff, scan_binary sign (isWord_of_isLiteral htext) hname.word operation]
  exact ofTokens_of_derives (.statement hspelling hforms)

/-- **Literals of any length are exact.** A literal is a run of decimal digits, or `0x` and a run of hexadecimal
ones, in capital or small letters, with a sign before it or none. A declaration with it has the value that the
whole literal denotes, modulo `256` to the size. As the source of an operation it has, at each width, that value
modulo `256` to the width, and the operation moves, adds or subtracts the literal itself modulo `256` to the
width of its target. For this the names of the machine must have views inside their blocks, and in every state
that calls can lead a loaded machine to they do. -/
theorem literal_exact (sign : Sign) (htext : IsLiteral text.toLower n) (hname : IsName name.toLower) (number : Nat) :
    let z := sign.apply n
    (∀ size : DataSize, ∃ d : Declaration,
      parse number (Opcode.define.mnemonic ++ " " ++ name ++ " " ++ size.tag ++ " " ++ sign.text ++ text) =
        .ok (some (.define d)) ∧
      d.name = name.toLower ∧ d.size = size ∧ d.value.width = size.width ∧
      (d.value.magnitude : Int) = z % 256 ^ size.width.bytes) ∧
    (∀ operation : Operation, ∃ source,
      parse number (operation.opcode.mnemonic ++ " " ++ name ++ ", " ++ sign.text ++ text) =
        .ok (some (.instruction (.binary operation name.toLower source))) ∧
      (∀ (scope : Scope) (s : Store) (w : Nat), 1 ≤ w → w ≤ 8 →
        ∃ x, scope.resolve s source w = .ok x ∧ x.width.bytes = w ∧ (x.magnitude : Int) = z % 256 ^ w) ∧
      ∀ (s : State) (v : View), s.environment.Sound → s.machine.scope.lookup? name.toLower = some v →
        ∃ x, (Machine.execute (.binary operation name.toLower source)).run s = .ok () (s.assign name.toLower x) ∧
          (s.assign name.toLower x).machine.read (s.assign name.toLower x).store name.toLower = .ok x ∧
          x.width = v.width ∧
          (x.magnitude : Int) = operation.eval (v.read s.store).magnitude z % 256 ^ v.width.bytes) ∧
    ∀ (p : Program) (settings : Settings) (w w' : World) (m : Machine),
      (Machine.load p settings).run w = .ok m w' → ∀ s, Reaches ⟨w', m⟩ s → s.environment.Sound := by
  intro z
  refine ⟨?_, ?_, fun p settings w w' m hload s hs => hs.sound hload⟩
  · intro size
    refine ⟨_, parse_define sign htext hname number size, rfl, rfl, rfl, ?_⟩
    rw [Declaration.make, sign.ofInt_apply_mod, Value.magnitude_ofInt_pow]
  · intro operation
    refine ⟨_, parse_binary sign htext hname number operation, ?_, ?_⟩
    · intro scope s w hpos hle
      have hresolve := Value.make_bytes (sign.apply (n % Numeral.wordBound)) ⟨w, hpos, hle⟩
      rw [sign.ofInt_apply_mod] at hresolve
      exact ⟨_, hresolve, rfl, Value.magnitude_ofInt_pow z _⟩
    · intro s v hs hv
      -- the dropped bits do not come back in the sum or the difference
      have hvalue : Value.ofInt (operation.eval (v.read s.store).magnitude (sign.apply (n % Numeral.wordBound)))
          v.width = Value.ofInt (operation.eval (v.read s.store).magnitude z) v.width := by
        rw [← operation.ofInt_eval _ (sign.apply _), sign.ofInt_apply_mod, operation.ofInt_eval]
      have hrun := Machine.run_execute_literal hv operation (sign.apply (n % Numeral.wordBound))
      rw [hvalue] at hrun
      exact ⟨_, hrun, State.read_assign hs hv rfl, rfl, Value.magnitude_ofInt_pow _ _⟩

/-- A literal of 73 bits with a minus sign and capital letters: in a byte, in eight bytes, and subtracted from a
word of a loaded machine. -/
theorem literal_exact_wide :
    (∃ d, parse 3 "define Total db -0x10000000000000000Ff" = .ok (some (.define d)) ∧ d.value.magnitude = 1) ∧
    ∃ source, parse 3 "sub Total, -0x10000000000000000Ff" =
        .ok (some (.instruction (.binary .sub "total" source))) ∧
      (∃ x, Scope.resolve ⟨[], [], ⟨0⟩, ⟨0⟩⟩ .empty source 8 = .ok x ∧ x.magnitude = 2 ^ 64 - 255) ∧
      ∃ m w', (Machine.load ⟨[.make "total" .word 5], []⟩ .standard).run .empty = .ok m w' ∧
        ∃ t, (Machine.execute (.binary .sub "total" source)).run ⟨w', m⟩ = .ok () t ∧
          ∃ x, t.machine.read t.store "total" = .ok x ∧ x.magnitude = 260 := by
  have htext : IsLiteral "0x10000000000000000Ff".toLower (2 ^ 72 + 255) := by
    have hlower : "0x10000000000000000Ff".toLower =
        String.ofList ('0' :: 'x' :: '1' :: (List.replicate 16 '0' ++ ['f', 'f'])) := by decide +kernel
    have hword : IsWord ('1' :: (List.replicate 16 '0' ++ ['f', 'f'])) := .of_all (by decide) (by decide)
    rw [hlower]
    exact .hexadecimal (Numeral.denotes_of_value? (fun c hc => (hword.char c hc).2) (by decide +kernel))
  have hlower : "Total".toLower = "total" := by decide +kernel
  have hname : IsName "Total".toLower := by decide +kernel
  have hdefine : Opcode.define.mnemonic ++ " " ++ "Total" ++ " " ++ DataSize.byte.tag ++ " " ++ Sign.minus.text ++
      "0x10000000000000000Ff" = "define Total db -0x10000000000000000Ff" := by decide +kernel
  have hsub : Operation.sub.opcode.mnemonic ++ " " ++ "Total" ++ ", " ++ Sign.minus.text ++ "0x10000000000000000Ff" =
      "sub Total, -0x10000000000000000Ff" := by decide +kernel
  obtain ⟨hdeclared, hoperated, hsound⟩ := literal_exact .minus htext hname 3
  obtain ⟨d, hd, -, -, -, hbyte⟩ := hdeclared .byte
  obtain ⟨source, hsource, hresolve, hexecute⟩ := hoperated .sub
  rw [hdefine] at hd
  rw [hsub, hlower] at hsource
  rw [hlower] at hexecute
  obtain ⟨x, hx, -, hwide⟩ := hresolve ⟨[], [], ⟨0⟩, ⟨0⟩⟩ .empty 8 (by decide) (by decide)
  have hloaded : ∀ p m w', (Machine.load p .standard).run .empty = .ok m w' →
      (State.mk w' m).environment.Sound := fun p m w' hload => hsound p .standard .empty w' m hload _ ⟨[], rfl⟩
  obtain ⟨y, hrun, hread, -, hword⟩ :=
    hexecute _ ⟨⟨0⟩, 0, .word⟩ (hloaded ⟨[.make "total" .word 5], []⟩ _ _ rfl) rfl
  have hbyte : d.value.magnitude = 1 := Int.natCast_inj.1 (hbyte.trans (by decide +kernel))
  have hwide : x.magnitude = 2 ^ 64 - 255 := Int.natCast_inj.1 (hwide.trans (by decide +kernel))
  have hword : y.magnitude = 260 := Int.natCast_inj.1 (hword.trans (by decide +kernel))
  exact ⟨⟨d, hd, hbyte⟩, source, hsource, ⟨x, hx, hwide⟩, _, _, rfl, _, hrun, y, hread, hword⟩

end Statement
end Octet
