import Mathlib.Control.Monad.Basic
import Octet.Proofs.Arithmetic
import Octet.Proofs.Numerals
import Octet.Proofs.Scanning
import Octet.Source

/-!
# Listings read back

A listing has one line for each statement, declarations first. Read as a source text, it gives the same
declarations and the same instructions; only a literal that is too long for 64 bits loses what stands
above them, and the reader makes no such literal.

* `Operand.reread`: an operand as it is read back.
* `Statement.parse_text`: **the line of a statement is read as that statement.**
* `Program.wellFormed_ofLines`: what has been read is well-formed and read back as it is.
* `Program.parse_of_wellFormed`: the listing of a well-formed program is read as that program.
* `Program.parse_listing`: **what was read from any text is read again from its own listing.**
-/

namespace Octet

open Token

/-- A name that can stand in a source line: a word that does not start with a digit. -/
structure IsName (n : String) : Prop where
  word : IsWord n.toList
  head : (n.toList.head?.map Char.isDigit).getD false = false

instance (n : String) : Decidable (IsName n) :=
  decidable_of_iff (n.toList ≠ [] ∧ (n.toList.all fun c => isWordChar c && c.toLower == c) = true ∧
      (n.toList.head?.map Char.isDigit).getD false = false)
    ⟨fun h => ⟨.of_all h.1 h.2.1, h.2.2⟩, fun h => ⟨h.word.ne_nil, by simpa using h.word.char, h.head⟩⟩

namespace Numeral

theorem toList_decimal (n : Nat) : (decimal n).toList = Nat.toDigits 10 n :=
  String.toList_ofList

theorem isWord_decimal (n : Nat) : IsWord (decimal n).toList := by
  rw [toList_decimal]
  refine ⟨Nat.toDigits_ne_nil, ?_⟩
  intro c hc
  exact isWordChar_of_isDigit (Nat.isDigit_of_mem_toDigits (by decide) (by decide) hc)

theorem head_decimal (n : Nat) : ((decimal n).toList.head?.map Char.isDigit).getD false = true := by
  rw [toList_decimal]
  cases hd : Nat.toDigits 10 n with
  | nil => exact absurd hd Nat.toDigits_ne_nil
  | cons c cs => exact Nat.isDigit_of_mem_toDigits (n := n) (b := 10) (by decide) (by decide) (by simp [hd])

end Numeral

namespace Operand

/-- The tokens of an operand. -/
def tokens : Operand → List Token
  | name n => [.word n]
  | literal z => if z < 0 then [.mark '-', .word (Numeral.decimal z.natAbs)] else [.word (Numeral.decimal z.natAbs)]

/-- An operand as it is read back: of a literal, the low 64 bits before the sign. -/
def reread : Operand → Operand
  | name n => name n
  | literal z =>
    literal (if z < 0 then -((z.natAbs % Numeral.wordBound : Nat) : Int) else (z.natAbs % Numeral.wordBound : Nat))

/-- An operand whose name can stand in a source line. -/
def WellFormed : Operand → Prop
  | name n => IsName n
  | literal _ => True

theorem reread_literal {z : Int} (hz : z.natAbs < Numeral.wordBound) : (literal z).reread = literal z := by
  rw [reread, Nat.mod_eq_of_lt hz]
  congr 1
  split <;> omega

/-- An operand is scanned as its tokens. -/
theorem scanFrom_text {o : Operand} (ho : o.WellFormed) : scanFrom [] o.text.toList = o.tokens := by
  cases o with
  | name n => rw [text, scanFrom_word ho.word, String.ofList_toList]; rfl
  | literal z =>
    have hword := scanFrom_word (Numeral.isWord_decimal z.natAbs)
    rw [String.ofList_toList] at hword
    rw [text, tokens, Numeral.integer]
    split
    · rw [String.toList_append, show "-".toList = ['-'] from rfl, List.singleton_append, scanFrom,
        if_neg (by decide), hword]
      rfl
    · exact hword

end Operand

namespace Statement

/-- A number in decimal is read modulo two to the power 64. -/
theorem literal_decimal (n : Nat) : literal (Numeral.decimal n) = .ok ((n % Numeral.wordBound : Nat) : Int) := by
  have hvalue : literal? (Numeral.decimal n).toList = some (n % Numeral.wordBound) := by
    rw [Numeral.toList_decimal]
    unfold literal?
    split
    case h_1 digits hd =>
      -- a decimal numeral does not start like a hexadecimal one
      have hx : 'x'.isDigit = true :=
        Nat.isDigit_of_mem_toDigits (n := n) (b := 10) (by decide) (by decide) (by simp [hd])
      exact absurd hx (by decide)
    case h_2 => rw [Numeral.valueMod?_eq, Numeral.value?_toDigits (by decide) (by decide)]; rfl
  unfold literal
  rw [hvalue]

/-- **The tokens of an operand are read as that operand**, whatever follows them. -/
theorem operands_tokens {o : Operand} (ho : o.WellFormed) (rest : List Token) :
    operands (o.tokens ++ rest) = (operands rest).map (o.reread :: ·) := by
  cases o with
  | name n =>
    have hword : unsigned n = .ok (.name n) := by simp [unsigned, ho.head]
    rw [Operand.tokens, List.singleton_append, operands, hword]
    cases operands rest <;> rfl
  | literal z =>
    have hn := literal_decimal z.natAbs
    rw [Operand.tokens, Operand.reread]
    split
    · rw [List.cons_append, List.singleton_append, operands, if_pos (Or.inl rfl)]
      · simp only [hn]
        cases operands rest <;> rfl
      · decide
    · have hword : unsigned (Numeral.decimal z.natAbs) = .ok (.literal (z.natAbs % Numeral.wordBound : Nat)) := by
        unfold unsigned
        rw [if_pos (Numeral.head_decimal z.natAbs), hn]
        rfl
      rw [List.singleton_append, operands, hword]
      cases operands rest <;> rfl

end Statement

theorem Opcode.isWord_mnemonic (op : Opcode) : IsWord op.mnemonic.toList := by
  cases op <;> exact .of_all (by decide) (by decide)

theorem DataSize.isName_tag (size : DataSize) : IsName size.tag := by
  cases size <;> exact ⟨.of_all (by decide) (by decide), by decide⟩

/-- A declaration whose name can stand in a source line and whose value has the declared size. -/
def Declaration.WellFormed (d : Declaration) : Prop :=
  IsName d.name ∧ d.value.width = d.width

theorem Declaration.toList_text (d : Declaration) :
    d.text.toList = Opcode.define.mnemonic.toList ++ ' ' :: (d.name.toList ++ ' ' ::
      (d.size.tag.toList ++ ' ' :: (Operand.literal d.value.signed).text.toList)) := by
  simp [text, Value.decimal, Operand.text]

namespace Instruction

/-- An instruction whose names can stand in a source line. -/
def WellFormed : Instruction → Prop
  | binary _ target source => IsName target ∧ source.WellFormed
  | cbw | cwd => True

/-- An instruction as it is read back. -/
def reread : Instruction → Instruction
  | binary operation target source => binary operation target source.reread
  | cbw => cbw
  | cwd => cwd

theorem toList_text_binary (operation : Operation) (target : String) (source : Operand) :
    (binary operation target source).text.toList =
      operation.opcode.mnemonic.toList ++ ' ' :: (target.toList ++ ',' :: ' ' :: source.text.toList) := by
  simp [text]

end Instruction

namespace Statement

/-- The statement as a source line. -/
def text : Statement → String
  | define d => d.text
  | instruction i => i.text

/-- A statement whose line is read as the statement, up to long literals. -/
def WellFormed : Statement → Prop
  | define d => d.WellFormed
  | instruction i => i.WellFormed

/-- A statement as it is read back. -/
def reread : Statement → Statement
  | define d => define d
  | instruction i => instruction i.reread

/-- The tokens of a statement. -/
def tokens : Statement → List Token
  | define d => .word Opcode.define.mnemonic :: .word d.name :: .word d.size.tag :: (Operand.literal d.value.signed).tokens
  | instruction (.binary operation target source) =>
    .word operation.opcode.mnemonic :: .word target :: .mark ',' :: source.tokens
  | instruction .cbw => [.word Opcode.cbw.mnemonic]
  | instruction .cwd => [.word Opcode.cwd.mnemonic]

/-- A word before a blank is found as it stands. -/
theorem scanFrom_word_blank {w : String} (hw : IsWord w.toList) (rest : List Char) :
    scanFrom [] (w.toList ++ ' ' :: rest) = .word w :: scanFrom [] rest := by
  rw [scanFrom_word_append hw (by decide), String.ofList_toList]
  rfl

/-- **The line of a statement is scanned as its tokens.** -/
theorem scanFrom_text {s : Statement} (hs : s.WellFormed) : scanFrom [] s.text.toList = s.tokens := by
  cases s with
  | define d =>
    rw [text, tokens, Declaration.toList_text, scanFrom_word_blank Opcode.define.isWord_mnemonic, scanFrom_word_blank hs.1.word,
      scanFrom_word_blank d.size.isName_tag.word, Operand.scanFrom_text (o := .literal d.value.signed) trivial]
  | instruction i =>
    cases i with
    | binary operation target source =>
      rw [text, tokens, Instruction.toList_text_binary, scanFrom_word_blank operation.opcode.isWord_mnemonic,
        scanFrom_word_append hs.1.word (by decide), String.ofList_toList, scanFrom, if_neg (by decide),
        Operand.scanFrom_text hs.2]
      rfl
    | cbw => decide
    | cwd => decide

/-- **The tokens of a statement are read as that statement.** -/
theorem ofTokens_tokens {s : Statement} (hs : s.WellFormed) : ofTokens s.tokens = .ok (some s.reread) := by
  cases s with
  | define d =>
    obtain ⟨hname, hwidth⟩ := hs
    -- the operands are read from the last one to the first
    have hargs : operands (.word d.name :: .word d.size.tag :: (Operand.literal d.value.signed).tokens) =
        .ok [.name d.name, .name d.size.tag, .literal d.value.signed] := by
      have htail := operands_tokens (o := .literal d.value.signed) trivial []
      rw [List.append_nil, Operand.reread_literal d.value.natAbs_signed_lt] at htail
      have htag := operands_tokens (o := .name d.size.tag) d.size.isName_tag (Operand.literal d.value.signed).tokens
      rw [htail] at htag
      exact (operands_tokens (o := .name d.name) hname _).trans (congrArg _ htag)
    have hd : Declaration.make d.name d.size d.value.signed = d := by
      unfold Declaration.make
      rw [← show d.value.width = d.size.width from hwidth, Value.ofInt_signed]
    rw [tokens, ofTokens, Opcode.ofMnemonic?_mnemonic]
    simp only [hargs]
    show (do return some (← (declaration [.name d.name, .name d.size.tag, .literal d.value.signed]).map define)) = _
    rw [declaration, DataSize.ofTag?_tag]
    simp only [hd]
    rfl
  | instruction i =>
    cases i with
    | binary operation target source =>
      obtain ⟨hname, hsource⟩ := hs
      have hargs : operands (.word target :: .mark ',' :: source.tokens) = .ok [.name target, source.reread] := by
        have htail := operands_tokens hsource []
        rw [List.append_nil] at htail
        exact (operands_tokens (o := .name target) hname _).trans (congrArg _ htail)
      rw [tokens, ofTokens, Opcode.ofMnemonic?_mnemonic]
      simp only [hargs]
      cases operation <;> rfl
    | cbw => rfl
    | cwd => rfl

/-- The characters that lines of a listing are made of. -/
def isLineChar (c : Char) : Bool :=
  isWordChar c || c == ' ' || c == ',' || c == '-'

theorem ne_of_isLineChar {c : Char} (hc : isLineChar c = true) : c ≠ ';' ∧ c ≠ '\n' ∧ c ≠ '\r' := by
  refine ⟨?_, ?_, ?_⟩
  all_goals
    rintro rfl
    exact absurd hc (by decide)

theorem isLineChar_word {cs : List Char} (hcs : IsWord cs) : ∀ c ∈ cs, isLineChar c = true := by
  intro c hc
  simp [isLineChar, (hcs.char c hc).1]

theorem isLineChar_operand {o : Operand} (ho : o.WellFormed) : ∀ c ∈ o.text.toList, isLineChar c = true := by
  cases o with
  | name n => exact isLineChar_word ho.word
  | literal z =>
    have hdigits := isLineChar_word (Numeral.isWord_decimal z.natAbs)
    rw [Operand.text, Numeral.integer]
    split
    · intro c hc
      rw [String.toList_append, List.mem_append] at hc
      rcases hc with hc | hc
      · rw [List.mem_singleton.1 hc]; rfl
      · exact hdigits c hc
    · exact hdigits

/-- The line of a statement has no semicolon and no line end in it. -/
theorem isLineChar_text {s : Statement} (hs : s.WellFormed) : ∀ c ∈ s.text.toList, isLineChar c = true := by
  cases s with
  | define d =>
    rw [text, Declaration.toList_text]
    simp only [List.forall_mem_append, List.forall_mem_cons]
    exact ⟨isLineChar_word Opcode.define.isWord_mnemonic, rfl, isLineChar_word hs.1.word, rfl,
      isLineChar_word d.size.isName_tag.word, rfl, isLineChar_operand trivial⟩
  | instruction i =>
    cases i with
    | binary operation target source =>
      rw [text, Instruction.toList_text_binary]
      simp only [List.forall_mem_append, List.forall_mem_cons]
      exact ⟨isLineChar_word operation.opcode.isWord_mnemonic, rfl, isLineChar_word hs.1.word, rfl, rfl,
        isLineChar_operand hs.2⟩
    | cbw => exact isLineChar_word Opcode.cbw.isWord_mnemonic
    | cwd => exact isLineChar_word Opcode.cwd.isWord_mnemonic

/-- **The line of a statement is read as that statement.** -/
theorem parse_text {s : Statement} (hs : s.WellFormed) (number : Nat) :
    parse number s.text = .ok (some s.reread) := by
  have hcode : code s.text.toList = s.text.toList :=
    code_of_not_mem fun hc => (ne_of_isLineChar (isLineChar_text hs _ hc)).1 rfl
  unfold parse scan
  rw [hcode, scanFrom_text hs, ofTokens_tokens hs]
  rfl

/-- A literal that has been read has at most 64 bits. -/
theorem literal_bounds {w : String} {n : Int} (h : literal w = .ok n) : 0 ≤ n ∧ n < Numeral.wordBound := by
  have hlt : ∀ {base cs k}, Numeral.valueMod? Numeral.wordBound base cs = some k → k < Numeral.wordBound :=
    fun hk => Numeral.valueMod?_lt (by decide) hk
  unfold literal at h
  split at h
  case h_1 k hk =>
    cases h
    unfold literal? at hk
    split at hk <;> have := hlt hk <;> omega
  case h_2 => cases h

theorem reread_literal_eq {w : String} {n : Int} (h : literal w = .ok n) (sign : Char) :
    (Operand.literal (applySign sign n)).reread = .literal (applySign sign n) := by
  obtain ⟨hlow, hhigh⟩ := literal_bounds h
  apply Operand.reread_literal
  unfold applySign
  split <;> omega

/-- A word without a sign is read as a name or as a literal that is read back as it is. -/
theorem wellFormed_unsigned {w : String} {o : Operand} (hw : IsWord w.toList) (h : unsigned w = .ok o) :
    o.WellFormed ∧ o.reread = o := by
  unfold unsigned at h
  split at h
  · cases hn : literal w with
    | error e => rw [hn] at h; cases h
    | ok n =>
      rw [hn] at h
      cases h
      exact ⟨trivial, reread_literal_eq hn '+'⟩
  · rename_i hhead
    cases h
    exact ⟨⟨hw, by simpa using hhead⟩, rfl⟩

/-- **What has been read as an operand is read back as it is.** -/
theorem wellFormed_operands {ts : List Token} (hts : ∀ w, .word w ∈ ts → IsWord w.toList) {os : List Operand}
    (h : operands ts = .ok os) : ∀ o ∈ os, o.WellFormed ∧ o.reread = o := by
  fun_induction operands ts generalizing os with
  | case1 => cases h; simp
  | case2 w rest ih =>
    obtain ⟨o, ho, h⟩ := exists_of_bind_eq_ok h
    obtain ⟨os', hos, h⟩ := exists_of_bind_eq_ok h
    cases h
    rw [List.forall_mem_cons]
    exact ⟨wellFormed_unsigned (hts w List.mem_cons_self) ho,
      ih (fun w' hw' => hts w' (List.mem_cons_of_mem _ hw')) hos⟩
  | case3 rest ih => exact ih (fun w' hw' => hts w' (List.mem_cons_of_mem _ hw')) h
  | case4 c hcomma hsign w rest ih =>
    obtain ⟨n, hn, h⟩ := exists_of_bind_eq_ok h
    obtain ⟨os', hos, h⟩ := exists_of_bind_eq_ok h
    cases h
    rw [List.forall_mem_cons]
    exact ⟨⟨trivial, reread_literal_eq hn c⟩,
      ih (fun w' hw' => hts w' (List.mem_cons_of_mem _ (List.mem_cons_of_mem _ hw'))) hos⟩
  | case5 => cases h
  | case6 => cases h

/-- What has been read as a declaration is well-formed. -/
theorem wellFormed_declaration {os : List Operand} {d : Declaration} (hos : ∀ o ∈ os, o.WellFormed)
    (h : declaration os = .ok d) : d.WellFormed := by
  unfold declaration at h
  split at h
  case h_1 name tag value =>
    split at h
    case h_1 size hsize =>
      cases h
      exact ⟨hos (.name name) List.mem_cons_self, rfl⟩
    case h_2 => cases h
  case h_2 => cases h

theorem wellFormed_binary {operation : Operation} {os : List Operand} {i : Instruction}
    (hos : ∀ o ∈ os, o.WellFormed ∧ o.reread = o) (h : Instruction.ofOperands operation os = .ok i) :
    i.WellFormed ∧ i.reread = i := by
  unfold Instruction.ofOperands at h
  split at h
  case h_1 target source =>
    cases h
    obtain ⟨htarget, -⟩ := hos (.name target) List.mem_cons_self
    obtain ⟨hsource, hsame⟩ := hos source (List.mem_cons_of_mem _ List.mem_cons_self)
    exact ⟨⟨htarget, hsource⟩, congrArg (Instruction.binary operation target) hsame⟩
  case h_2 => cases h
  case h_3 => cases h

/-- What has been read as an instruction is well-formed and read back as it is. -/
theorem wellFormed_ofParts {opcode : Opcode} {os : List Operand} {i : Instruction}
    (hos : ∀ o ∈ os, o.WellFormed ∧ o.reread = o) (h : Instruction.ofParts opcode os = .ok i) :
    i.WellFormed ∧ i.reread = i := by
  cases opcode with
  | mov => exact wellFormed_binary hos h
  | add => exact wellFormed_binary hos h
  | sub => exact wellFormed_binary hos h
  | define => cases h
  | cbw =>
    rw [Instruction.ofParts, Instruction.ofNoOperands] at h
    split at h <;> cases h
    exact ⟨trivial, rfl⟩
  | cwd =>
    rw [Instruction.ofParts, Instruction.ofNoOperands] at h
    split at h <;> cases h
    exact ⟨trivial, rfl⟩

theorem wellFormed_ofOperands {opcode : Opcode} {os : List Operand} {s : Statement}
    (hos : ∀ o ∈ os, o.WellFormed ∧ o.reread = o) (h : ofOperands opcode os = .ok s) :
    s.WellFormed ∧ s.reread = s := by
  unfold ofOperands at h
  split at h
  · cases hd : declaration os with
    | error e => rw [hd] at h; cases h
    | ok d =>
      rw [hd] at h
      cases h
      exact ⟨wellFormed_declaration (fun o ho => (hos o ho).1) hd, rfl⟩
  · cases hi : Instruction.ofParts opcode os with
    | error e => rw [hi] at h; cases h
    | ok i =>
      rw [hi] at h
      cases h
      obtain ⟨hwf, hsame⟩ := wellFormed_ofParts hos hi
      exact ⟨hwf, congrArg instruction hsame⟩

/-- **What has been read from a line is well-formed and read back as it is.** -/
theorem wellFormed_parse {number : Nat} {line : String} {s : Statement} (h : parse number line = .ok (some s)) :
    s.WellFormed ∧ s.reread = s := by
  unfold parse at h
  cases ht : ofTokens (scan line) with
  | error e => rw [ht] at h; cases h
  | ok s' =>
    rw [ht] at h
    cases h
    unfold ofTokens at ht
    split at ht
    case h_1 => cases ht
    case h_2 => cases ht
    case h_3 w rest hscan =>
      split at ht
      case h_1 => cases ht
      case h_2 opcode hop =>
        obtain ⟨os, hos, ht⟩ := exists_of_bind_eq_ok ht
        obtain ⟨s', hs, ht⟩ := exists_of_bind_eq_ok ht
        cases ht
        refine wellFormed_ofOperands (wellFormed_operands ?_ hos) hs
        intro w' hw'
        have hmem : .word w' ∈ scan line := by rw [hscan]; exact List.mem_cons_of_mem _ hw'
        exact isWord_of_mem_scan hmem

end Statement

namespace Program

/-- Declarations whose names differ from those declared before them and from the registers. -/
def Fresh (declared : List String) : List Declaration → Prop
  | [] => True
  | d :: ds => isTaken declared d.name = false ∧ Fresh (d.name :: declared) ds

/-- A program that can follow lines which declare some names. -/
structure WellFormed (declared : List String) (p : Program) : Prop where
  declarations : ∀ d ∈ p.declarations, d.WellFormed
  code : ∀ i ∈ p.code, i.WellFormed
  fresh : Fresh declared p.declarations

/-- A program as it is read back. -/
def reread (p : Program) : Program :=
  { p with code := p.code.map Instruction.reread }

/-- A line with a statement puts that statement in front. -/
theorem ofLines_cons {declared : List String} {number : Nat} {line : String} {s : Statement}
    (hline : Statement.parse number line = .ok (some s)) (hfree : (declares s).find? (isTaken declared) = none)
    (rest : List String) :
    ofLines declared number (line :: rest) =
      (ofLines (declares s ++ declared) (number + 1) rest).map (cons s) := by
  rw [ofLines, hline, ok_bind]
  simp only [hfree]
  cases ofLines (declares s ++ declared) (number + 1) rest <;> rfl

theorem ofLines_code {code : List Instruction} (hcode : ∀ i ∈ code, i.WellFormed) : ∀ declared number,
    ofLines declared number (code.map Instruction.text) = .ok ⟨[], code.map Instruction.reread⟩ := by
  induction code with
  | nil => intro declared number; rfl
  | cons i code ih =>
    intro declared number
    have hline : Statement.parse number i.text = .ok (some (.instruction i.reread)) :=
      Statement.parse_text (s := .instruction i) (hcode i List.mem_cons_self) number
    rw [List.map_cons, ofLines_cons hline rfl]
    simp only [declares, List.nil_append]
    rw [ih fun i' hi' => hcode i' (List.mem_cons_of_mem _ hi')]
    rfl

/-- **The lines of a well-formed program are read as that program.** -/
theorem ofLines_lines {code : List Instruction} (hcode : ∀ i ∈ code, i.WellFormed) {ds : List Declaration} :
    ∀ declared number, (∀ d ∈ ds, d.WellFormed) → Fresh declared ds →
      ofLines declared number (ds.map Declaration.text ++ code.map Instruction.text) =
        .ok ⟨ds, code.map Instruction.reread⟩ := by
  induction ds with
  | nil => intro declared number _ _; exact ofLines_code hcode declared number
  | cons d ds ih =>
    intro declared number hds hfresh
    obtain ⟨hfree, hfresh⟩ := hfresh
    have hline : Statement.parse number d.text = .ok (some (.define d)) :=
      Statement.parse_text (s := .define d) (hds d List.mem_cons_self) number
    rw [List.map_cons, List.cons_append, ofLines_cons hline (by simp [declares, hfree])]
    simp only [declares, List.singleton_append]
    rw [ih _ _ (fun d' hd' => hds d' (List.mem_cons_of_mem _ hd')) hfresh]
    rfl

/-- **What has been read from some lines is well-formed and read back as it is.** -/
theorem wellFormed_ofLines (lines : List String) : ∀ {declared : List String} {number : Nat} {p : Program},
    ofLines declared number lines = .ok p → p.WellFormed declared ∧ p.reread = p := by
  induction lines with
  | nil =>
    intro declared number p h
    cases h
    exact ⟨⟨by simp [empty], by simp [empty], trivial⟩, rfl⟩
  | cons line lines ih =>
    intro declared number p h
    rw [ofLines] at h
    obtain ⟨s, hs, h⟩ := exists_of_bind_eq_ok h
    cases s with
    | none => exact ih h
    | some s =>
      obtain ⟨hwf, hsame⟩ := Statement.wellFormed_parse hs
      cases hfree : (declares s).find? (isTaken declared) with
      | some name => simp only [hfree] at h; cases h
      | none =>
        simp only [hfree] at h
        obtain ⟨q, hq, h⟩ := exists_of_bind_eq_ok h
        cases h
        obtain ⟨⟨hds, hcode, hfresh⟩, hq⟩ := ih hq
        have hcodeSame : q.code.map Instruction.reread = q.code := congrArg Program.code hq
        cases s with
        | define d =>
          -- the name was free when it was read and is taken for all lines after it
          refine ⟨⟨List.forall_mem_cons.2 ⟨hwf, hds⟩, hcode, ?_, hfresh⟩, ?_⟩
          · simpa [declares] using hfree
          · exact congrArg (Program.mk (d :: q.declarations)) hcodeSame
        | instruction i =>
          have hi : i.reread = i := by simpa [Statement.reread] using hsame
          refine ⟨⟨hds, List.forall_mem_cons.2 ⟨hwf, hcode⟩, hfresh⟩, ?_⟩
          simp only [reread, cons, List.map_cons, hi, hcodeSame]

/-- The lines of a well-formed program have no line ends in them. -/
theorem ne_of_mem_lines {declared : List String} {p : Program} (hp : p.WellFormed declared) {line : String}
    (hline : line ∈ p.lines) : ∀ c ∈ line.toList, c ≠ '\n' ∧ c ≠ '\r' := by
  intro c hc
  unfold lines at hline
  rcases List.mem_append.1 hline with hline | hline
  · obtain ⟨d, hd, rfl⟩ := List.mem_map.1 hline
    exact (Statement.ne_of_isLineChar (Statement.isLineChar_text (s := .define d) (hp.declarations d hd) c hc)).2
  · obtain ⟨i, hi, rfl⟩ := List.mem_map.1 hline
    exact (Statement.ne_of_isLineChar (Statement.isLineChar_text (s := .instruction i) (hp.code i hi) c hc)).2

theorem lines_listing {declared : List String} {p : Program} (hp : p.WellFormed declared) :
    Text.lines p.listing = p.lines := by
  have hjoin : p.listing.toList = (p.lines.map String.toList).flatMap fun line => line ++ ['\n'] := by
    simp [listing, String.toList_join, List.flatMap_map]
  unfold Text.lines
  rw [hjoin, Text.splitLines_flatMap]
  · simp [Function.comp_def]
  · intro line hline
    obtain ⟨text, htext, rfl⟩ := List.mem_map.1 hline
    exact ne_of_mem_lines hp htext

/-- **The listing of a well-formed program is read as that program**, up to long literals. -/
theorem parse_of_wellFormed {p : Program} (hp : p.WellFormed []) : parse p.listing = .ok p.reread := by
  unfold parse
  rw [lines_listing hp]
  exact ofLines_lines hp.code _ _ hp.declarations hp.fresh

/-- **What was read from a text is read again from its own listing.** -/
theorem parse_listing {source : String} {p : Program} (h : parse source = .ok p) : parse p.listing = .ok p := by
  obtain ⟨hp, hsame⟩ := wellFormed_ofLines _ h
  rw [parse_of_wellFormed hp, hsame]

/-- Names that are a mnemonic and a size tag, a value above the middle of its range, and the least literal
that can be read. -/
theorem parse_listing_boundary :
    let source := "DEFINE mov DW 0xFFFE; two below\r\n\n define db db +200\nmov mov, - 18446744073709551615\ncwd"
    let p : Program := ⟨[.make "mov" .word (-2), .make "db" .byte (-56)],
      [.binary .mov "mov" (.literal (-18446744073709551615)), .cwd]⟩
    parse source = .ok p ∧ parse p.listing = .ok p := by
  intro source p
  have hp : parse source = .ok p := by decide +kernel
  exact ⟨hp, parse_listing hp⟩

end Program
end Octet
