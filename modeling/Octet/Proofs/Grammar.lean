import Mathlib.Control.Monad.Basic
import Mathlib.Data.List.Induction
import Mathlib.Tactic.IntervalCases
import Octet.Proofs.Listing

/-!
# The grammar of a source line

Which sequences of tokens are statements, said by productions and not by the reader. A statement is a
mnemonic and its operands; commas may stand anywhere between and around the operands. An operand is a
name or a number, and a sign belongs to the number directly after it. The reader finds exactly the
statements that the productions allow; whatever else stands in a line is an error of that line.

* `Numeral.Denotes`, `Operand.Spelled`, `Spelling`, `Statement.Forms`, `Statement.Derives`: the grammar,
  from digits to statements.
* `Statement.operands_eq_ok_iff`: the reader finds the operands that the grammar spells.
* `Statement.ofTokens_eq_ok_some_iff`: **the reader finds the statements that the grammar derives.**
* `Statement.parse_grammar`: **a line is empty, a statement of the grammar, or an error with its number.**
-/

namespace Octet

open Token

/-- A run of digits in a base, the most significant one first, and the number that it denotes. -/
inductive Numeral.Denotes (base : Nat) : List Char → Nat → Prop
  | single {d : Nat} : d < base → Denotes base [Nat.digitChar d] d
  | concat {cs : List Char} {n d : Nat} :
    Denotes base cs n → d < base → Denotes base (cs ++ [Nat.digitChar d]) (n * base + d)

/-- A word that is a number: decimal digits, or `0x` and hexadecimal digits in lowercase. -/
inductive IsLiteral : String → Nat → Prop
  | decimal {cs : List Char} {n : Nat} : Numeral.Denotes 10 cs n → IsLiteral (String.ofList cs) n
  | hexadecimal {cs : List Char} {n : Nat} :
    Numeral.Denotes 16 cs n → IsLiteral (String.ofList ('0' :: 'x' :: cs)) n

/-- The tokens of one operand: a word that starts with a letter, or a number with at most one sign
directly before it. Of the number, the low 64 bits count. -/
inductive Operand.Spelled : List Token → Operand → Prop
  | name {c : Char} {cs : List Char} :
    c.isAlpha = true → Spelled [.word (String.ofList (c :: cs))] (.name (String.ofList (c :: cs)))
  | unsigned {w : String} {n : Nat} :
    IsLiteral w n → Spelled [.word w] (.literal ((n % Numeral.wordBound : Nat) : Int))
  | positive {w : String} {n : Nat} :
    IsLiteral w n → Spelled [.mark '+', .word w] (.literal ((n % Numeral.wordBound : Nat) : Int))
  | negative {w : String} {n : Nat} :
    IsLiteral w n → Spelled [.mark '-', .word w] (.literal (-((n % Numeral.wordBound : Nat) : Int)))

/-- The tokens of some operands, with any number of commas before, between and after them. -/
inductive Spelling : List Token → List Operand → Prop
  | nil : Spelling [] []
  | comma {ts : List Token} {os : List Operand} : Spelling ts os → Spelling (.mark ',' :: ts) os
  | operand {front ts : List Token} {o : Operand} {os : List Operand} :
    o.Spelled front → Spelling ts os → Spelling (front ++ ts) (o :: os)

namespace Statement

/-- The statements: a mnemonic, the operands that it takes, and what they say together. -/
inductive Forms : String → List Operand → Statement → Prop
  | mov (target : String) (source : Operand) :
    Forms "mov" [.name target, source] (.instruction (.binary .mov target source))
  | add (target : String) (source : Operand) :
    Forms "add" [.name target, source] (.instruction (.binary .add target source))
  | sub (target : String) (source : Operand) :
    Forms "sub" [.name target, source] (.instruction (.binary .sub target source))
  | cbw : Forms "cbw" [] (.instruction .cbw)
  | cwd : Forms "cwd" [] (.instruction .cwd)
  | byte (name : String) (z : Int) :
    Forms "define" [.name name, .name "db", .literal z] (.define (.make name .byte z))
  | word (name : String) (z : Int) :
    Forms "define" [.name name, .name "dw", .literal z] (.define (.make name .word z))

/-- The tokens of a statement: a mnemonic, and then operands and commas. -/
inductive Derives : List Token → Statement → Prop
  | statement {w : String} {ts : List Token} {os : List Operand} {s : Statement} :
    Spelling ts os → Forms w os s → Derives (.word w :: ts) s

end Statement

/-- What can lie behind an error of a line: an unknown mnemonic, a wrong number of operands, or a number in
the place of a name. -/
def Error.LiesBehindLine : Error → Prop
  | .unknownOpcode _ => True
  | .badInstruction _ (.operandCount _ _) => True
  | .badInstruction _ (.literalDestination _) => True
  | _ => False

namespace Numeral

/-- In lowercase, a digit has one spelling. -/
theorem eq_digitChar {base d : Nat} {c : Char} (hc : c.toLower = c) (h : digit? base c = some d) :
    c = Nat.digitChar d := by
  have hchar : Char.ofNat c.toNat = c := Char.ofNat_toNat c
  unfold digit? at h
  have hvalue := (Option.filter_eq_some_iff.1 h).1
  split at hvalue
  case isTrue hdigit =>
    have hlow : 48 ≤ c.toNat := hdigit.1
    have hhigh : c.toNat ≤ 57 := hdigit.2
    cases hvalue
    generalize c.toNat = n at hchar hlow hhigh
    subst hchar
    interval_cases n <;> rfl
  case isFalse =>
    split at hvalue
    case isTrue hletter =>
      have hlow : 97 ≤ c.toNat := hletter.1
      have hhigh : c.toNat ≤ 102 := hletter.2
      cases hvalue
      generalize c.toNat = n at hchar hlow hhigh
      subst hchar
      interval_cases n <;> rfl
    case isFalse =>
      split at hvalue
      case isTrue hcapital =>
        -- a capital letter is not its own lowercase
        have hlow : 65 ≤ c.toNat := hcapital.1
        have hhigh : c.toNat ≤ 70 := hcapital.2
        generalize c.toNat = n at hchar hlow hhigh
        subst hchar
        interval_cases n <;> exact absurd hc (by decide)
      case isFalse => cases hvalue

/-- The digits of a numeral are digits of its base. -/
theorem Denotes.char {base n : Nat} {cs : List Char} (h : Denotes base cs n) :
    ∀ c ∈ cs, ∃ d, d < base ∧ c = Nat.digitChar d := by
  induction h with
  | single hd =>
    intro c hc
    exact ⟨_, hd, List.mem_singleton.1 hc⟩
  | concat _ hd ih =>
    intro c hc
    rcases List.mem_append.1 hc with hc | hc
    · exact ih c hc
    · exact ⟨_, hd, List.mem_singleton.1 hc⟩

theorem Denotes.ne_nil {base n : Nat} {cs : List Char} (h : Denotes base cs n) : cs ≠ [] := by
  cases h with
  | single _ => simp
  | concat _ _ => simp

theorem value?_of_denotes {base n : Nat} {cs : List Char} (hb : base ≤ 16) (h : Denotes base cs n) :
    value? base cs = some n := by
  induction h with
  | single hd =>
    rw [value?_of_ne_nil (by simp)]
    simp [digit?_digitChar hd hb]
  | concat _ hd ih => exact value?_concat ih (digit?_digitChar hd hb)

/-- **A run of digits that has a value denotes it**, if its letters are in lowercase. -/
theorem denotes_of_value? {base : Nat} {cs : List Char} (hcs : ∀ c ∈ cs, c.toLower = c) :
    ∀ {n : Nat}, value? base cs = some n → Denotes base cs n := by
  -- the last digit comes off the end, as it was the last one to be read
  induction cs using List.reverseRecOn with
  | nil => intro n h; cases h
  | append_singleton cs c ih =>
    intro n h
    have hlower : c.toLower = c := hcs c (by simp)
    rw [value?_of_ne_nil (by simp), List.foldlM_append] at h
    obtain ⟨k, hk, h⟩ := Option.bind_eq_some_iff.1 h
    have hlast : (digit? base c).map (k * base + ·) = some n := by simpa using h
    obtain ⟨d, hd, rfl⟩ := Option.map_eq_some_iff.1 hlast
    rw [eq_digitChar hlower hd]
    by_cases hne : cs = []
    · subst hne
      obtain rfl : k = 0 := by simpa using hk.symm
      rw [List.nil_append, Nat.zero_mul, Nat.zero_add]
      exact .single (digit?_lt hd)
    · rw [← value?_of_ne_nil hne] at hk
      exact .concat (ih (fun c' hc' => hcs c' (List.mem_append_left _ hc')) hk) (digit?_lt hd)

end Numeral

namespace Statement

theorem literal?_of_decimal {cs : List Char} {n : Nat} (h : Numeral.Denotes 10 cs n) :
    literal? cs = some (n % Numeral.wordBound) := by
  have hvalue := Numeral.value?_of_denotes (by decide) h
  unfold literal?
  split
  case h_1 digits =>
    -- a decimal numeral has no `x` in it
    obtain ⟨d, hd, hx⟩ := h.char 'x' (by simp)
    interval_cases d <;> exact absurd hx (by decide)
  case h_2 =>
    rw [Numeral.valueMod?_eq, hvalue]
    rfl

theorem literal?_of_hexadecimal {cs : List Char} {n : Nat} (h : Numeral.Denotes 16 cs n) :
    literal? ('0' :: 'x' :: cs) = some (n % Numeral.wordBound) := by
  rw [literal?, Numeral.valueMod?_eq, Numeral.value?_of_denotes (by decide) h]
  rfl

/-- A literal of the grammar is read as the low 64 bits of its number. -/
theorem literal_of_isLiteral {w : String} {n : Nat} (h : IsLiteral w n) :
    literal w = .ok ((n % Numeral.wordBound : Nat) : Int) := by
  have hvalue : literal? w.toList = some (n % Numeral.wordBound) := by
    cases h with
    | decimal h => rw [String.toList_ofList]; exact literal?_of_decimal h
    | hexadecimal h => rw [String.toList_ofList]; exact literal?_of_hexadecimal h
  unfold literal
  rw [hvalue]

/-- What is read as a literal is one of the grammar. -/
theorem isLiteral_of_literal {w : String} {z : Int} (hw : IsWord w.toList) (h : literal w = .ok z) :
    ∃ n, IsLiteral w n ∧ z = ((n % Numeral.wordBound : Nat) : Int) := by
  have hlower : ∀ c ∈ w.toList, c.toLower = c := fun c hc => (hw.char c hc).2
  have hlist : w = String.ofList w.toList := String.ofList_toList.symm
  unfold literal at h
  split at h
  case h_2 => cases h
  case h_1 k hk =>
    cases h
    unfold literal? at hk
    split at hk
    case h_1 digits hdigits =>
      rw [Numeral.valueMod?_eq] at hk
      obtain ⟨n, hn, rfl⟩ := Option.map_eq_some_iff.1 hk
      rw [hdigits] at hlower hlist
      have hspelled := Numeral.denotes_of_value? (fun c hc => hlower c (by simp [hc])) hn
      exact ⟨n, hlist ▸ .hexadecimal hspelled, rfl⟩
    case h_2 =>
      rw [Numeral.valueMod?_eq] at hk
      obtain ⟨n, hn, rfl⟩ := Option.map_eq_some_iff.1 hk
      exact ⟨n, hlist ▸ .decimal (Numeral.denotes_of_value? hlower hn), rfl⟩

/-- A literal starts with a digit. -/
theorem head_of_isLiteral {w : String} {n : Nat} (h : IsLiteral w n) :
    (w.toList.head?.map Char.isDigit).getD false = true := by
  cases h with
  | hexadecimal _ => rw [String.toList_ofList]; rfl
  | @decimal cs _ h =>
    rw [String.toList_ofList]
    cases cs with
    | nil => exact absurd rfl h.ne_nil
    | cons c cs =>
      obtain ⟨d, hd, rfl⟩ := h.char c List.mem_cons_self
      interval_cases d <;> rfl

theorem isDigit_of_isAlpha {c : Char} (hc : c.isAlpha = true) : c.isDigit = false := by
  unfold Char.isAlpha Char.isUpper Char.isLower at hc
  simp only [Char.isDigit, Bool.or_eq_true, Bool.and_eq_true, decide_eq_true_eq, Bool.and_eq_false_iff,
    decide_eq_false_iff_not, ge_iff_le, UInt32.le_iff_toNat_le, Char.reduceVal, UInt32.reduceToNat] at hc ⊢
  omega

/-- **The tokens of an operand are read as that operand**, whatever follows them. -/
theorem operands_of_spelled {front : List Token} {o : Operand} (h : o.Spelled front) (ts : List Token) :
    operands (front ++ ts) = (operands ts).map (o :: ·) := by
  cases h with
  | @name c cs hc =>
    have hword : unsigned (String.ofList (c :: cs)) = .ok (.name (String.ofList (c :: cs))) := by
      unfold unsigned
      rw [String.toList_ofList, if_neg]
      simp [isDigit_of_isAlpha hc]
    rw [List.singleton_append, operands, hword]
    cases operands ts <;> rfl
  | @unsigned w n h =>
    have hword : unsigned w = .ok (.literal ((n % Numeral.wordBound : Nat) : Int)) := by
      unfold unsigned
      rw [if_pos (head_of_isLiteral h), literal_of_isLiteral h]
      rfl
    rw [List.singleton_append, operands, hword]
    cases operands ts <;> rfl
  | positive h =>
    rw [List.cons_append, List.singleton_append, operands, if_pos (Or.inr rfl)]
    · simp only [literal_of_isLiteral h]
      cases operands ts <;> rfl
    · decide
  | negative h =>
    rw [List.cons_append, List.singleton_append, operands, if_pos (Or.inl rfl)]
    · simp only [literal_of_isLiteral h]
      cases operands ts <;> rfl
    · decide

theorem operands_of_spelling {ts : List Token} {os : List Operand} (h : Spelling ts os) :
    operands ts = .ok os := by
  induction h with
  | nil => rfl
  | comma _ ih => rw [operands, ih]
  | operand hfront _ ih => rw [operands_of_spelled hfront, ih]; rfl

/-- A word without a sign is spelled as the grammar says. -/
theorem spelled_of_unsigned {w : String} {o : Operand} (hw : IsWord w.toList) (h : unsigned w = .ok o) :
    o.Spelled [.word w] := by
  unfold unsigned at h
  split at h
  case isTrue =>
    cases hn : literal w with
    | error e => rw [hn] at h; cases h
    | ok z =>
      rw [hn] at h
      cases h
      obtain ⟨n, hliteral, rfl⟩ := isLiteral_of_literal hw hn
      exact .unsigned hliteral
  case isFalse hhead =>
    cases h
    have hlist : w = String.ofList w.toList := String.ofList_toList.symm
    cases hcs : w.toList with
    | nil => exact absurd hcs hw.ne_nil
    | cons c cs =>
      -- a letter or digit that is no digit is a letter
      have halnum : isWordChar c = true := (hw.char c (by rw [hcs]; exact List.mem_cons_self)).1
      rw [hcs] at hhead hlist
      have hdigit : c.isDigit = false := by simpa using hhead
      have halpha : c.isAlpha = true := by simpa [isWordChar, Char.isAlphanum, hdigit] using halnum
      rw [hlist]
      exact .name halpha

theorem spelled_of_sign {c : Char} {w : String} {z : Int} (hw : IsWord w.toList) (hc : c = '-' ∨ c = '+')
    (h : literal w = .ok z) : (Operand.literal (applySign c z)).Spelled [.mark c, .word w] := by
  obtain ⟨n, hn, rfl⟩ := isLiteral_of_literal hw h
  rcases hc with rfl | rfl
  · exact .negative hn
  · exact .positive hn

/-- **The reader finds the operands that the grammar spells.** -/
theorem operands_eq_ok_iff {ts : List Token} (hts : ∀ w, .word w ∈ ts → IsWord w.toList) {os : List Operand} :
    operands ts = .ok os ↔ Spelling ts os := by
  refine ⟨?_, operands_of_spelling⟩
  intro h
  fun_induction operands ts generalizing os with
  | case1 => cases h; exact .nil
  | case2 w rest ih =>
    obtain ⟨o, ho, h⟩ := exists_of_bind_eq_ok h
    obtain ⟨os', hos, h⟩ := exists_of_bind_eq_ok h
    cases h
    have hrest := ih (fun w' hw' => hts w' (List.mem_cons_of_mem _ hw')) hos
    exact .operand (spelled_of_unsigned (hts w List.mem_cons_self) ho) hrest
  | case3 rest ih => exact .comma (ih (fun w' hw' => hts w' (List.mem_cons_of_mem _ hw')) h)
  | case4 c hcomma hsign w rest ih =>
    obtain ⟨z, hz, h⟩ := exists_of_bind_eq_ok h
    obtain ⟨os', hos, h⟩ := exists_of_bind_eq_ok h
    cases h
    have hw : IsWord w.toList := hts w (List.mem_cons_of_mem _ List.mem_cons_self)
    have hrest := ih (fun w' hw' => hts w' (List.mem_cons_of_mem _ (List.mem_cons_of_mem _ hw'))) hos
    exact .operand (spelled_of_sign hw hsign hz) hrest
  | case5 => cases h
  | case6 => cases h

/-- A statement of the grammar is made of its mnemonic and its operands. -/
theorem ofOperands_of_forms {w : String} {os : List Operand} {s : Statement} (h : Forms w os s) :
    ∃ opcode, Opcode.ofMnemonic? w = some opcode ∧ ofOperands opcode os = .ok s := by
  cases h with
  | mov _ _ => exact ⟨.mov, by decide, rfl⟩
  | add _ _ => exact ⟨.add, by decide, rfl⟩
  | sub _ _ => exact ⟨.sub, by decide, rfl⟩
  | cbw => exact ⟨.cbw, by decide, rfl⟩
  | cwd => exact ⟨.cwd, by decide, rfl⟩
  | byte _ _ => exact ⟨.define, by decide, rfl⟩
  | word _ _ => exact ⟨.define, by decide, rfl⟩

theorem forms_of_declaration {os : List Operand} {d : Declaration} (h : declaration os = .ok d) :
    Forms "define" os (.define d) := by
  unfold declaration at h
  split at h
  case h_2 => cases h
  case h_1 name tag z =>
    split at h
    case h_2 => cases h
    case h_1 size hsize =>
      cases h
      have htag : size.tag = tag := by simpa using List.find?_some hsize
      subst htag
      cases size with
      | byte => exact .byte name z
      | word => exact .word name z

theorem operands_of_binary {operation : Operation} {os : List Operand} {i : Instruction}
    (h : Instruction.ofOperands operation os = .ok i) :
    ∃ target source, os = [.name target, source] ∧ i = .binary operation target source := by
  unfold Instruction.ofOperands at h
  split at h
  case h_1 target source => cases h; exact ⟨target, source, rfl, rfl⟩
  case h_2 => cases h
  case h_3 => cases h

theorem operands_of_noOperands {j i : Instruction} {os : List Operand}
    (h : Instruction.ofNoOperands j os = .ok i) : os = [] ∧ i = j := by
  unfold Instruction.ofNoOperands at h
  split at h
  case isTrue hempty => cases h; exact ⟨List.isEmpty_iff.1 hempty, rfl⟩
  case isFalse => cases h

theorem forms_of_ofParts {opcode : Opcode} {os : List Operand} {i : Instruction}
    (h : Instruction.ofParts opcode os = .ok i) : Forms opcode.mnemonic os (.instruction i) := by
  cases opcode with
  | mov => obtain ⟨target, source, rfl, rfl⟩ := operands_of_binary h; exact .mov target source
  | add => obtain ⟨target, source, rfl, rfl⟩ := operands_of_binary h; exact .add target source
  | sub => obtain ⟨target, source, rfl, rfl⟩ := operands_of_binary h; exact .sub target source
  | cbw => obtain ⟨rfl, rfl⟩ := operands_of_noOperands h; exact .cbw
  | cwd => obtain ⟨rfl, rfl⟩ := operands_of_noOperands h; exact .cwd
  | define => cases h

/-- What an opcode and operands make is a statement of the grammar. -/
theorem forms_of_ofOperands {opcode : Opcode} {os : List Operand} {s : Statement}
    (h : ofOperands opcode os = .ok s) : Forms opcode.mnemonic os s := by
  unfold ofOperands at h
  split at h
  case isTrue hdefine =>
    subst hdefine
    cases hd : declaration os with
    | error e => rw [hd] at h; cases h
    | ok d => rw [hd] at h; cases h; exact forms_of_declaration hd
  case isFalse =>
    cases hi : Instruction.ofParts opcode os with
    | error e => rw [hi] at h; cases h
    | ok i => rw [hi] at h; cases h; exact forms_of_ofParts hi

theorem ofTokens_of_derives {ts : List Token} {s : Statement} (h : Derives ts s) : ofTokens ts = .ok (some s) := by
  cases h with
  | @statement w ts os s hspelling hforms =>
    obtain ⟨opcode, hopcode, hs⟩ := ofOperands_of_forms hforms
    rw [ofTokens, hopcode]
    simp only [operands_of_spelling hspelling, ok_bind, hs]
    rfl

/-- **The reader finds the statements that the grammar derives.** -/
theorem ofTokens_eq_ok_some_iff {ts : List Token} (hts : ∀ w, .word w ∈ ts → IsWord w.toList) {s : Statement} :
    ofTokens ts = .ok (some s) ↔ Derives ts s := by
  refine ⟨?_, ofTokens_of_derives⟩
  intro h
  unfold ofTokens at h
  split at h
  case h_1 => cases h
  case h_2 => cases h
  case h_3 w rest =>
    split at h
    case h_1 => cases h
    case h_2 opcode hopcode =>
      obtain ⟨os, hos, h⟩ := exists_of_bind_eq_ok h
      obtain ⟨s', hs, h⟩ := exists_of_bind_eq_ok h
      cases h
      have hmnemonic : opcode.mnemonic = w := by simpa using List.find?_some hopcode
      have hspelling := (operands_eq_ok_iff fun w' hw' => hts w' (List.mem_cons_of_mem _ hw')).1 hos
      exact .statement hspelling (hmnemonic ▸ forms_of_ofOperands hs)

theorem ofTokens_eq_ok_none_iff {ts : List Token} : ofTokens ts = .ok none ↔ ts = [] := by
  refine ⟨?_, by rintro rfl; rfl⟩
  intro h
  unfold ofTokens at h
  split at h
  case h_1 => rfl
  case h_2 => cases h
  case h_3 w rest =>
    split at h
    case h_1 => cases h
    case h_2 opcode _ =>
      obtain ⟨os, -, h⟩ := exists_of_bind_eq_ok h
      obtain ⟨s', -, h⟩ := exists_of_bind_eq_ok h
      cases h

/-- Nothing lies behind an operand that cannot be read. -/
theorem cause_of_operands {ts : List Token} {fault : LineFault} (h : operands ts = .error fault) :
    fault.cause? = none := by
  have hliteral : ∀ {w : String} {f : LineFault}, literal w = .error f → f.cause? = none := by
    intro w f hf
    unfold literal at hf
    split at hf <;> cases hf
    rfl
  have hunsigned : ∀ {w : String} {f : LineFault}, unsigned w = .error f → f.cause? = none := by
    intro w f hf
    unfold unsigned at hf
    split at hf
    · cases hn : literal w with
      | error e => rw [hn] at hf; cases hf; exact hliteral hn
      | ok z => rw [hn] at hf; cases hf
    · cases hf
  fun_induction operands ts with
  | case1 => cases h
  | case2 w rest ih =>
    cases ho : unsigned w with
    | error e => rw [ho] at h; cases h; exact hunsigned ho
    | ok o =>
      cases hos : operands rest with
      | error e => rw [ho, hos] at h; cases h; exact ih hos
      | ok os => rw [ho, hos] at h; cases h
  | case3 rest ih => exact ih h
  | case4 c hcomma hsign w rest ih =>
    cases hz : literal w with
    | error e => rw [hz] at h; cases h; exact hliteral hz
    | ok z =>
      cases hos : operands rest with
      | error e => rw [hz, hos] at h; cases h; exact ih hos
      | ok os => rw [hz, hos] at h; cases h
  | case5 => cases h; rfl
  | case6 => cases h; rfl

theorem cause_of_ofParts {opcode : Opcode} (hopcode : opcode ≠ .define) {os : List Operand}
    {fault : InstructionFault} (h : Instruction.ofParts opcode os = .error fault) :
    (Error.badInstruction opcode fault).LiesBehindLine := by
  have hbinary : ∀ {operation : Operation}, Instruction.ofOperands operation os = .error fault →
      (Error.badInstruction opcode fault).LiesBehindLine := by
    intro operation hf
    unfold Instruction.ofOperands at hf
    split at hf <;> cases hf <;> trivial
  have hnone : ∀ {j : Instruction}, Instruction.ofNoOperands j os = .error fault →
      (Error.badInstruction opcode fault).LiesBehindLine := by
    intro j hf
    unfold Instruction.ofNoOperands at hf
    split at hf <;> cases hf
    trivial
  cases opcode with
  | mov => exact hbinary h
  | add => exact hbinary h
  | sub => exact hbinary h
  | cbw => exact hnone h
  | cwd => exact hnone h
  | define => exact absurd rfl hopcode

theorem cause_of_ofOperands {opcode : Opcode} {os : List Operand} {fault : LineFault}
    (h : ofOperands opcode os = .error fault) : ∀ e, fault.cause? = some e → e.LiesBehindLine := by
  unfold ofOperands at h
  split at h
  case isTrue =>
    cases hd : declaration os with
    | ok d => rw [hd] at h; cases h
    | error f =>
      rw [hd] at h
      cases h
      unfold declaration at hd
      split at hd
      · split at hd <;> cases hd
        intro e he
        cases he
      · cases hd
        intro e he
        cases he
  case isFalse hne =>
    cases hi : Instruction.ofParts opcode os with
    | ok i => rw [hi] at h; cases h
    | error f =>
      rw [hi] at h
      cases h
      intro e he
      cases he
      exact cause_of_ofParts hne hi

/-- **What lies behind a line that cannot be read.** -/
theorem cause_of_ofTokens {ts : List Token} {fault : LineFault} (h : ofTokens ts = .error fault) :
    ∀ e, fault.cause? = some e → e.LiesBehindLine := by
  unfold ofTokens at h
  split at h
  case h_1 => cases h
  case h_2 => cases h; intro e he; cases he
  case h_3 w rest =>
    split at h
    case h_1 => cases h; intro e he; cases he; trivial
    case h_2 opcode _ =>
      cases hos : operands rest with
      | error f =>
        rw [hos] at h
        cases h
        intro e he
        rw [cause_of_operands hos] at he
        cases he
      | ok os =>
        rw [hos] at h
        cases hs : ofOperands opcode os with
        | error f => simp only [ok_bind, hs] at h; cases h; exact cause_of_ofOperands hs
        | ok s => simp only [ok_bind, hs] at h; cases h

theorem parse_eq_ok_iff {number : Nat} {line : String} {found : Option Statement} :
    parse number line = .ok found ↔ ofTokens (scan line) = .ok found := by
  unfold parse
  cases ofTokens (scan line) <;> simp [Except.mapError]

/-- **A line is read as the grammar says.** It is empty if it has no tokens, and it is a statement if the
grammar derives that statement from its tokens. Every other line is an error with the number of the line,
and what lies behind the error, if anything does, is an unknown mnemonic, a wrong number of operands or a
number in the place of a name. -/
theorem parse_grammar (number : Nat) (line : String) :
    (parse number line = .ok none ↔ scan line = []) ∧
      (∀ s, parse number line = .ok (some s) ↔ Derives (scan line) s) ∧
      (scan line ≠ [] → (∀ s, ¬ Derives (scan line) s) →
        ∃ fault, parse number line = .error (.badLine number fault) ∧
          ∀ e, fault.cause? = some e → e.LiesBehindLine) := by
  have hwords : ∀ w, .word w ∈ scan line → IsWord w.toList := fun w hw => isWord_of_mem_scan hw
  refine ⟨parse_eq_ok_iff.trans ofTokens_eq_ok_none_iff,
    fun s => parse_eq_ok_iff.trans (ofTokens_eq_ok_some_iff hwords), ?_⟩
  intro hne hother
  cases h : ofTokens (scan line) with
  | error fault =>
    refine ⟨fault, ?_, cause_of_ofTokens h⟩
    unfold parse
    rw [h]
    rfl
  | ok found =>
    cases found with
    | none => exact absurd (ofTokens_eq_ok_none_iff.1 h) hne
    | some s => exact absurd ((ofTokens_eq_ok_some_iff hwords).1 h) (hother s)

-- Commas do not count, but none may stand between a sign and its number.
example : parse 7 "SUB,, Total ,-0x0F," = .ok (some (.instruction (.binary .sub "total" (.literal (-15))))) ∧
    parse 7 "sub total -,15" = .error (.badLine 7 (.numberExpected '-')) := by
  decide +kernel

end Statement
end Octet
