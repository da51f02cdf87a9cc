import Mathlib.Data.List.Chain
import Mathlib.Data.List.TakeWhile
import Octet.Json

/-!
# Words of documents

The texts of the words of a JSON document, said by productions and not by the reader, and the texts in which words
follow each other with blanks before, between and after them. What the reader finds is always there. What is there
is found, if it is clear where a word ends: a number must not be followed by what could be more of it.

* `Json.IsNumber`, `Json.Quoted`, `Json.Lexeme.Spelled`: the texts of words.
* `Json.Laid`: the texts of sequences of words.
* `Json.number?_append`, `Json.stringFrom_append`, `Json.lexeme?_append`: a word is found up to its end.
* `Json.lexemes_of_laid`: **the words of a text are found**, if of two neighbours one is a mark.
* `Json.laid_of_lexemes`: **words that are found are there.**
-/

namespace Octet.Json

/-- Decimal digits, at least one. -/
structure IsDigits (cs : List Char) : Prop where
  ne_nil : cs ≠ []
  digit : ∀ c ∈ cs, c.isDigit = true

/-- The whole part of a number: digits without a leading zero. -/
structure IsWhole (cs : List Char) : Prop extends IsDigits cs where
  lead : ∀ ds, cs = '0' :: ds → ds = []

/-- One of some signs, or nothing. -/
def IsSign (signs cs : List Char) : Prop :=
  cs = [] ∨ ∃ c ∈ signs, cs = [c]

/-- The fraction of a number, if it has one. -/
inductive IsFraction : List Char → Prop
  | absent : IsFraction []
  | digits {cs : List Char} : IsDigits cs → IsFraction ('.' :: cs)

/-- The exponent of a number, if it has one. -/
inductive IsExponent : List Char → Prop
  | absent : IsExponent []
  | digits {e : Char} {sign cs : List Char} :
    e = 'e' ∨ e = 'E' → IsSign ['+', '-'] sign → IsDigits cs → IsExponent (e :: (sign ++ cs))

/-- The text of a number. -/
inductive IsNumber : List Char → Prop
  | mk {sign whole fraction exponent : List Char} :
    IsSign ['-'] sign → IsWhole whole → IsFraction fraction → IsExponent exponent →
      IsNumber (sign ++ whole ++ fraction ++ exponent)

/-- The escapes of one letter and the characters that they stand for. -/
def shortEscapes : List (Char × Char) :=
  [('"', '"'), ('\\', '\\'), ('/', '/'), ('b', '\x08'), ('f', '\x0c'), ('n', '\n'), ('r', '\r'), ('t', '\t')]

/-- The characters of a string, and a text for them up to the closing quote. A character stands for itself or is
escaped by a letter or by its number; one above the first `65536` has two numbers, its halves. -/
inductive Quoted : List Char → List Char → Prop
  | close : Quoted [] ['"']
  | plain {c : Char} {s cs : List Char} :
    c ≠ '"' → c ≠ '\\' → 0x20 ≤ c.toNat → Quoted s cs → Quoted (c :: s) (c :: cs)
  | short {e c : Char} {s cs : List Char} :
    (e, c) ∈ shortEscapes → Quoted s cs → Quoted (c :: s) ('\\' :: e :: cs)
  | unit {a b c d : Char} {n : Nat} {s cs : List Char} :
    Numeral.value? 16 [a, b, c, d] = some n → n < 0xD800 ∨ 0xE000 ≤ n → Quoted s cs →
      Quoted (Char.ofNat n :: s) ('\\' :: 'u' :: a :: b :: c :: d :: cs)
  | pair {a b c d a' b' c' d' : Char} {high low : Nat} {s cs : List Char} :
    Numeral.value? 16 [a, b, c, d] = some high → 0xD800 ≤ high → high < 0xDC00 →
    Numeral.value? 16 [a', b', c', d'] = some low → 0xDC00 ≤ low → low < 0xE000 → Quoted s cs →
      Quoted (Char.ofNat (0x10000 + (high - 0xD800) * 0x400 + (low - 0xDC00)) :: s)
        ('\\' :: 'u' :: a :: b :: c :: d :: '\\' :: 'u' :: a' :: b' :: c' :: d' :: cs)

/-- A text for a word. -/
inductive Lexeme.Spelled : Lexeme → List Char → Prop
  | mark {c : Char} : isMark c = true → Spelled (.mark c) [c]
  | null : Spelled .null ['n', 'u', 'l', 'l']
  | yes : Spelled (.bool true) ['t', 'r', 'u', 'e']
  | no : Spelled (.bool false) ['f', 'a', 'l', 's', 'e']
  | number {cs : List Char} : IsNumber cs → Spelled (.number (String.ofList cs)) cs
  | string {s cs : List Char} : Quoted s cs → Spelled (.string (String.ofList s)) ('"' :: cs)

/-- Blanks, or nothing. -/
def IsGap (cs : List Char) : Prop :=
  ∀ c ∈ cs, isSpace c = true

/-- A text of some words, with any blanks before, between and after them. -/
inductive Laid : List Lexeme → List Char → Prop
  | nil {gap : List Char} : IsGap gap → Laid [] gap
  | cons {gap cs ds : List Char} {word : Lexeme} {words : List Lexeme} :
    IsGap gap → word.Spelled cs → Laid words ds → Laid (word :: words) (gap ++ cs ++ ds)

/-- Neither a digit nor a part of a number can follow. -/
def Stops (rest : List Char) : Prop :=
  ∀ c ∈ rest.head?, c.isDigit = false ∧ c ≠ '.' ∧ c ≠ 'e' ∧ c ≠ 'E'

theorem IsDigits.head?_append {ds rest : List Char} (hds : IsDigits ds) {c : Char} (hc : c ∈ (ds ++ rest).head?) :
    c.isDigit = true := by
  obtain ⟨d, ds', rfl⟩ := List.exists_cons_of_ne_nil hds.ne_nil
  rw [List.cons_append, List.head?_cons, Option.mem_some_iff] at hc
  exact hc ▸ hds.digit d List.mem_cons_self

theorem digits?_append {ds rest : List Char} (hds : IsDigits ds) (hrest : ∀ c ∈ rest.head?, c.isDigit = false) :
    digits? (ds ++ rest) = some (ds, rest) := by
  have htake : (ds ++ rest).takeWhile Char.isDigit = ds := by
    rw [List.takeWhile_append_of_pos hds.digit]
    cases rest with
    | nil => simp
    | cons c rest => simp [hrest c rfl]
  have hdrop : (ds ++ rest).dropWhile Char.isDigit = rest := by
    rw [List.dropWhile_append_of_pos hds.digit]
    cases rest with
    | nil => rfl
    | cons c rest => simp [hrest c rfl]
  unfold digits?
  simp only [htake, hdrop, List.isEmpty_iff, hds.ne_nil, if_false]

theorem whole?_append {ds rest : List Char} (hds : IsWhole ds) (hrest : ∀ c ∈ rest.head?, c.isDigit = false) :
    whole? (ds ++ rest) = some (ds, rest) := by
  unfold whole?
  rw [digits?_append hds.toIsDigits hrest]
  split
  case h_1 d ds' _ heq =>
    -- a leading zero is the only digit
    have hds' : ds = '0' :: d :: ds' := (Prod.mk.inj (Option.some.inj heq)).1
    cases hds.lead _ hds'
  case h_2 => rfl

theorem fraction?_append {cs rest : List Char} (hcs : IsFraction cs)
    (hrest : ∀ c ∈ rest.head?, c.isDigit = false ∧ c ≠ '.') : fraction? (cs ++ rest) = some (cs, rest) := by
  cases hcs with
  | absent =>
    rw [List.nil_append]
    unfold fraction?
    split
    case h_1 => exact absurd rfl (hrest '.' rfl).2
    case h_2 => rfl
  | digits hds =>
    rw [List.cons_append, fraction?, digits?_append hds fun c hc => (hrest c hc).1]
    rfl

theorem sign_append {signs s rest : List Char} (hs : IsSign signs s) (hrest : ∀ c ∈ rest.head?, c ∉ signs) :
    sign signs (s ++ rest) = (s, rest) := by
  rcases hs with rfl | ⟨c, hc, rfl⟩
  · cases rest with
    | nil => rfl
    | cons c rest =>
      have hcontains : signs.contains c = false := by simpa using hrest c rfl
      rw [List.nil_append, sign, hcontains]
      rfl
  · have hcontains : signs.contains c = true := by simpa using hc
    rw [List.singleton_append, sign, hcontains]
    rfl

theorem exponent?_append {cs rest : List Char} (hcs : IsExponent cs)
    (hrest : ∀ c ∈ rest.head?, c.isDigit = false ∧ c ≠ 'e' ∧ c ≠ 'E') : exponent? (cs ++ rest) = some (cs, rest) := by
  cases hcs with
  | absent =>
    cases rest with
    | nil => rfl
    | cons c rest =>
      obtain ⟨-, he, hE⟩ := hrest c rfl
      rw [List.nil_append, exponent?, if_neg (by simp [he, hE])]
  | @digits e s ds he hs hds =>
    have hletter : (e == 'e' || e == 'E') = true := by
      simpa using he
    have hsplit : sign ['+', '-'] (s ++ (ds ++ rest)) = (s, ds ++ rest) := by
      refine sign_append hs ?_
      intro c hc hmem
      have hdigit := hds.head?_append hc
      revert hdigit
      -- a digit is no sign
      rcases List.mem_cons.1 hmem with rfl | hmem
      · decide
      · rw [List.mem_singleton.1 hmem]
        decide
    rw [List.cons_append, exponent?, if_pos hletter, List.append_assoc]
    simp only [hsplit, digits?_append hds fun c hc => (hrest c hc).1, Option.map_some, List.cons_append]

/-- What can follow the whole part of a number, as far as digits go. -/
theorem head?_append_of_isExponent {cs rest : List Char} (hcs : IsExponent cs) (hrest : Stops rest) :
    ∀ c ∈ (cs ++ rest).head?, c.isDigit = false ∧ c ≠ '.' := by
  cases hcs with
  | absent => exact fun c hc => ⟨(hrest c hc).1, (hrest c hc).2.1⟩
  | @digits e s ds he _ _ =>
    intro c hc
    cases hc
    rcases he with rfl | rfl <;> decide

/-- **A number is found up to its end.** -/
theorem number?_append {cs rest : List Char} (hcs : IsNumber cs) (hrest : Stops rest) :
    number? (cs ++ rest) = some (cs, rest) := by
  obtain @⟨s, whole, fraction, exponent, hs, hwhole, hfraction, hexponent⟩ := hcs
  have hafter := head?_append_of_isExponent hexponent hrest
  have hstop : ∀ c ∈ (fraction ++ (exponent ++ rest)).head?, c.isDigit = false := by
    cases hfraction with
    | absent => exact fun c hc => (hafter c hc).1
    | digits _ =>
      intro c hc
      cases hc
      rfl
  have hsign : sign ['-'] (s ++ (whole ++ (fraction ++ (exponent ++ rest)))) =
      (s, whole ++ (fraction ++ (exponent ++ rest))) := by
    refine sign_append hs ?_
    intro c hc hmem
    have hdigit := hwhole.head?_append hc
    rw [List.mem_singleton.1 hmem] at hdigit
    exact absurd hdigit (by decide)
  have hend := exponent?_append hexponent fun c hc => ⟨(hrest c hc).1, (hrest c hc).2.2⟩
  unfold number?
  simp only [List.append_assoc, hsign, whole?_append hwhole hstop, fraction?_append hfraction hafter, hend,
    Option.bind_eq_bind, Option.bind_some, Option.pure_def]

theorem shortEscape?_of_mem {e c : Char} (h : (e, c) ∈ shortEscapes) : shortEscape? e = some c ∧ e ≠ 'u' := by
  have hall : ∀ p ∈ shortEscapes, shortEscape? p.1 = some p.2 ∧ p.1 ≠ 'u' := by decide
  exact hall (e, c) h

/-- **A string is found up to its closing quote.** -/
theorem stringFrom_append {s cs : List Char} (h : Quoted s cs) (rest : List Char) :
    stringFrom none (cs ++ rest) = some (s, rest) := by
  induction h with
  | close => rfl
  | plain hquote hslash hcontrol _ ih =>
    simp [stringFrom, hquote, hslash, Nat.not_lt.2 hcontrol, ih]
  | short he _ ih =>
    obtain ⟨hc, hu⟩ := shortEscape?_of_mem he
    simp [stringFrom, hc, hu, ih]
  | @unit a b c d n s cs hn hhalf _ ih =>
    have hhigh : isHighHalf n = false := by
      simp only [isHighHalf, Bool.and_eq_false_iff, decide_eq_false_iff_not]
      omega
    have hlow : isLowHalf n = false := by
      simp only [isLowHalf, Bool.and_eq_false_iff, decide_eq_false_iff_not]
      omega
    simp [stringFrom, hn, hhigh, hlow, ih]
  | @pair a b c d a' b' c' d' high low s cs hhigh hhigh1 hhigh2 hlow hlow1 hlow2 _ ih =>
    have hfirst : isHighHalf high = true := by
      simp [isHighHalf, hhigh1, hhigh2]
    have hsecond : isLowHalf low = true := by
      simp [isLowHalf, hlow1, hlow2]
    simp [stringFrom, hhigh, hlow, hfirst, hsecond, ofHalves, ih]

/-- What stands at the front of a number. -/
theorem head_of_isNumber {cs : List Char} (h : IsNumber cs) : ∃ c ds, cs = c :: ds ∧ (c = '-' ∨ c.isDigit = true) := by
  obtain @⟨s, whole, fraction, exponent, hs, hwhole, -, -⟩ := h
  rcases hs with rfl | ⟨c, hc, rfl⟩
  · obtain ⟨d, ds, rfl⟩ := List.exists_cons_of_ne_nil hwhole.ne_nil
    exact ⟨d, _, rfl, Or.inr (hwhole.digit d List.mem_cons_self)⟩
  · exact ⟨c, _, rfl, Or.inl (List.mem_singleton.1 hc)⟩

/-- A number starts with none of the characters that other words and blanks start with. -/
theorem not_mark_of_number {c : Char} (h : c = '-' ∨ c.isDigit = true) :
    isMark c = false ∧ c ∉ ['n', 't', 'f', '"'] ∧ isSpace c = false := by
  rcases h with rfl | h
  · decide
  · have hne : ∀ d : Char, d.isDigit = false → c ≠ d := by
      rintro d hd rfl
      exact absurd h (by simp [hd])
    simp [isMark, isSpace, hne]

theorem lexeme?_of_not_mem {c : Char} (h : c ∉ ['n', 't', 'f', '"']) (rest : List Char) :
    lexeme? (c :: rest) =
      if isMark c then some (.mark c, rest)
      else (number? (c :: rest)).map fun (s, r) => (.number (String.ofList s), r) := by
  simp only [List.mem_cons, List.not_mem_nil, or_false, not_or] at h
  obtain ⟨hn, ht, hf, hquote⟩ := h
  rw [lexeme?]
  · exact fun _ hc _ => hn hc
  · exact fun _ hc _ => ht hc
  · exact fun _ hc _ => hf hc
  · exact hquote

/-- **A word is found up to its end**, a number if the text does not go on with it. -/
theorem lexeme?_append {word : Lexeme} {cs rest : List Char} (h : word.Spelled cs)
    (hrest : ∀ text, word = .number text → Stops rest) : lexeme? (cs ++ rest) = some (word, rest) := by
  cases h with
  | @mark c hc =>
    have hletter : c ∉ ['n', 't', 'f', '"'] := by
      intro hmem
      have hnone : ∀ d ∈ ['n', 't', 'f', '"'], isMark d = false := by simp [isMark]
      exact absurd hc (by simp [hnone c hmem])
    rw [List.singleton_append, lexeme?_of_not_mem hletter, if_pos hc]
  | null => rfl
  | yes => rfl
  | no => rfl
  | number hnumber =>
    have hfound := number?_append hnumber (hrest _ rfl)
    obtain ⟨c, ds, rfl, hc⟩ := head_of_isNumber hnumber
    obtain ⟨hmark, hletter, -⟩ := not_mark_of_number hc
    rw [List.cons_append] at hfound
    rw [List.cons_append, lexeme?_of_not_mem hletter, if_neg (by simp [hmark]), hfound]
    rfl
  | string hquoted =>
    rw [List.cons_append, lexeme?, stringFrom_append hquoted rest]
    rfl

/-- A word has a text, and it does not start with a blank. -/
theorem Lexeme.Spelled.head {word : Lexeme} {cs : List Char} (h : word.Spelled cs) :
    ∃ c ds, cs = c :: ds ∧ isSpace c = false := by
  cases h with
  | @mark c hc =>
    refine ⟨c, [], rfl, ?_⟩
    simp only [isMark, List.contains_iff_mem, List.mem_cons, List.not_mem_nil, or_false] at hc
    rcases hc with rfl | rfl | rfl | rfl | rfl | rfl <;> rfl
  | null => exact ⟨_, _, rfl, rfl⟩
  | yes => exact ⟨_, _, rfl, rfl⟩
  | no => exact ⟨_, _, rfl, rfl⟩
  | number hnumber =>
    obtain ⟨c, ds, rfl, hc⟩ := head_of_isNumber hnumber
    exact ⟨c, ds, rfl, (not_mark_of_number hc).2.2⟩
  | string _ => exact ⟨_, _, rfl, rfl⟩

/-- One of two words is a mark, so that nothing has to stand between them. -/
def Lexeme.Apart (word next : Lexeme) : Prop :=
  (∃ c, word = .mark c) ∨ ∃ c, next = .mark c

theorem stops_cons {c : Char} {rest : List Char} (hc : isSpace c = true ∨ isMark c = true) : Stops (c :: rest) := by
  intro d hd
  cases hd
  simp only [isSpace, isMark, Bool.or_eq_true, beq_iff_eq, List.contains_iff_mem, List.mem_cons, List.not_mem_nil,
    or_false] at hc
  rcases hc with (((rfl | rfl) | rfl) | rfl) | rfl | rfl | rfl | rfl | rfl | rfl <;> decide

namespace Laid

variable {words : List Lexeme} {cs : List Char}

/-- A number ends before a blank, a mark, and the end of the text. -/
theorem stops (h : Laid words cs) (hmark : ∀ word ∈ words.head?, ∃ c, word = .mark c) : Stops cs := by
  cases h with
  | nil hgap =>
    cases cs with
    | nil => simp [Stops]
    | cons c cs => exact stops_cons (Or.inl (hgap c List.mem_cons_self))
  | @cons gap cs ds word words hgap hword _ =>
    cases gap with
    | nil =>
      obtain ⟨c, rfl⟩ := hmark word rfl
      cases hword with
      | mark hc => exact stops_cons (Or.inr hc)
    | cons c gap => exact stops_cons (Or.inl (hgap c List.mem_cons_self))

/-- No word is empty. -/
theorem length_le (h : Laid words cs) : words.length ≤ cs.length := by
  induction h with
  | nil => exact Nat.zero_le _
  | cons _ hword _ ih =>
    obtain ⟨c, ds, rfl, -⟩ := hword.head
    simp only [List.length_append, List.length_cons]
    omega

theorem lexemesWithin (h : Laid words cs) (hwords : words.IsChain Lexeme.Apart) {bound : Nat}
    (hbound : words.length ≤ bound) : lexemesWithin bound cs = some words := by
  induction h generalizing bound with
  | @nil gap hgap =>
    have hdrop : gap.dropWhile isSpace = [] := by
      rw [List.dropWhile_eq_nil_iff]
      exact hgap
    cases bound <;> simp [Json.lexemesWithin, hdrop]
  | @cons gap cs ds word words hgap hword hlaid ih =>
    cases bound with
    | zero => exact absurd hbound (Nat.not_succ_le_zero _)
    | succ bound =>
      obtain ⟨hnext, hwords⟩ := List.isChain_cons.1 hwords
      have hrest : ∀ text, word = .number text → Stops ds := by
        rintro text rfl
        refine hlaid.stops ?_
        intro next hmem
        rcases hnext next hmem with ⟨c, hc⟩ | hmark
        · cases hc
        · exact hmark
      have hfound := lexeme?_append hword hrest
      obtain ⟨c, cs', rfl, hc⟩ := hword.head
      have hdrop : (gap ++ (c :: cs') ++ ds).dropWhile isSpace = c :: (cs' ++ ds) := by
        rw [List.append_assoc, List.dropWhile_append_of_pos hgap, List.cons_append,
          List.dropWhile_cons_of_neg (by simp [hc])]
      rw [List.cons_append] at hfound
      rw [Json.lexemesWithin, hdrop]
      simp [hfound, ih hwords (Nat.le_of_succ_le_succ hbound)]

end Laid

/-- **The words of a text are found**, if of two neighbours one is a mark. -/
theorem lexemes_of_laid {words : List Lexeme} {cs : List Char} (h : Laid words cs)
    (hwords : words.IsChain Lexeme.Apart) : lexemes cs = some words :=
  h.lexemesWithin hwords h.length_le

theorem digits?_eq_some {cs ds rest : List Char} (h : digits? cs = some (ds, rest)) :
    IsDigits ds ∧ cs = ds ++ rest := by
  unfold digits? at h
  dsimp only at h
  split at h
  · cases h
  · next hne =>
    cases h
    exact ⟨⟨by simpa using hne, fun c hc => List.mem_takeWhile_imp hc⟩, List.takeWhile_append_dropWhile.symm⟩

theorem whole?_eq_some {cs ds rest : List Char} (h : whole? cs = some (ds, rest)) :
    IsWhole ds ∧ cs = ds ++ rest := by
  unfold whole? at h
  split at h
  case h_1 => cases h
  case h_2 hlead =>
    obtain ⟨hds, rfl⟩ := digits?_eq_some h
    refine ⟨⟨hds, ?_⟩, rfl⟩
    rintro ds' rfl
    cases ds' with
    | nil => rfl
    | cons d ds' => exact absurd h (hlead d ds' rest)

theorem fraction?_eq_some {cs fraction rest : List Char} (h : fraction? cs = some (fraction, rest)) :
    IsFraction fraction ∧ cs = fraction ++ rest := by
  unfold fraction? at h
  split at h
  case h_1 cs =>
    obtain ⟨⟨ds, r⟩, hds, heq⟩ := Option.map_eq_some_iff.1 h
    obtain ⟨hdigits, rfl⟩ := digits?_eq_some hds
    cases heq
    exact ⟨.digits hdigits, rfl⟩
  case h_2 =>
    cases h
    exact ⟨.absent, rfl⟩

theorem sign_eq {signs cs s rest : List Char} (h : sign signs cs = (s, rest)) : IsSign signs s ∧ cs = s ++ rest := by
  cases cs with
  | nil =>
    cases h
    exact ⟨Or.inl rfl, rfl⟩
  | cons c cs =>
    rw [sign] at h
    split at h
    · next hc =>
      cases h
      exact ⟨Or.inr ⟨c, by simpa using hc, rfl⟩, rfl⟩
    · cases h
      exact ⟨Or.inl rfl, rfl⟩

theorem exponent?_eq_some {cs exponent rest : List Char} (h : exponent? cs = some (exponent, rest)) :
    IsExponent exponent ∧ cs = exponent ++ rest := by
  cases cs with
  | nil =>
    cases h
    exact ⟨.absent, rfl⟩
  | cons c cs =>
    rw [exponent?] at h
    split at h
    · next hc =>
      obtain ⟨s, r, hs⟩ : ∃ s r, sign ['+', '-'] cs = (s, r) := ⟨_, _, rfl⟩
      rw [hs] at h
      obtain ⟨⟨ds, r'⟩, hds, heq⟩ := Option.map_eq_some_iff.1 h
      obtain ⟨hsign, rfl⟩ := sign_eq hs
      obtain ⟨hdigits, rfl⟩ := digits?_eq_some hds
      cases heq
      exact ⟨.digits (by simpa using hc) hsign hdigits, by simp⟩
    · cases h
      exact ⟨.absent, rfl⟩

/-- A number that is found is there. -/
theorem number?_eq_some {cs number rest : List Char} (h : number? cs = some (number, rest)) :
    IsNumber number ∧ cs = number ++ rest := by
  obtain ⟨s, r, hs⟩ : ∃ s r, sign ['-'] cs = (s, r) := ⟨_, _, rfl⟩
  unfold number? at h
  simp only [hs, Option.bind_eq_bind, Option.bind_eq_some_iff, Option.pure_def, Option.some.injEq, Prod.mk.injEq] at h
  obtain ⟨⟨whole, r₁⟩, hwhole, ⟨fraction, r₂⟩, hfraction, ⟨exponent, r₃⟩, hexponent, rfl, rfl⟩ := h
  obtain ⟨hsign, rfl⟩ := sign_eq hs
  obtain ⟨iswhole, rfl⟩ := whole?_eq_some hwhole
  obtain ⟨isfraction, rfl⟩ := fraction?_eq_some hfraction
  obtain ⟨isexponent, rfl⟩ := exponent?_eq_some hexponent
  exact ⟨.mk hsign iswhole isfraction isexponent, by simp⟩

theorem mem_shortEscapes {e c : Char} (h : shortEscape? e = some c) : (e, c) ∈ shortEscapes := by
  unfold shortEscape? at h
  split at h <;> cases h <;> decide

/-- The same behind the first half of a pair, if there is one: the second half must be the next escape. -/
inductive QuotedAfter : Option Nat → List Char → List Char → Prop
  | none {s text : List Char} : Quoted s text → QuotedAfter none s text
  | half {a b c d : Char} {high low : Nat} {s text : List Char} :
    Numeral.value? 16 [a, b, c, d] = some low → isLowHalf low = true → Quoted s text →
      QuotedAfter (some high) (ofHalves high low :: s) ('\\' :: 'u' :: a :: b :: c :: d :: text)

theorem quoted_of_quotedAfter {s text : List Char} (h : QuotedAfter none s text) : Quoted s text := by
  cases h with
  | none h => exact h

/-- A string that is found is there. -/
theorem stringFrom_eq_some {high : Option Nat} {cs s rest : List Char} (h : stringFrom high cs = some (s, rest)) :
    ∃ text, QuotedAfter high s text ∧ cs = text ++ rest := by
  fun_induction stringFrom high cs generalizing s rest with
  | case1 => cases h
  | case2 a b c d cs low high hlow hhalf ih =>
    obtain ⟨⟨s', r⟩, hs, heq⟩ := Option.map_eq_some_iff.1 h
    obtain ⟨text, hquoted, rfl⟩ := ih hs
    cases heq
    exact ⟨_, .half hlow hhalf (quoted_of_quotedAfter hquoted), rfl⟩
  | case3 => cases h
  | case4 a b c d cs high hvalue hhigh ih =>
    obtain ⟨text, hquoted, rfl⟩ := ih h
    simp only [isHighHalf, Bool.and_eq_true, decide_eq_true_eq] at hhigh
    cases hquoted with
    | half hlow hhalf hrest =>
      simp only [isLowHalf, Bool.and_eq_true, decide_eq_true_eq] at hhalf
      exact ⟨_, .none (.pair hvalue hhigh.1 hhigh.2 hlow hhalf.1 hhalf.2 hrest), rfl⟩
  | case5 => cases h
  | case6 a b c d cs unit hvalue hhigh hlow ih =>
    obtain ⟨⟨s', r⟩, hs, heq⟩ := Option.map_eq_some_iff.1 h
    obtain ⟨text, hquoted, rfl⟩ := ih hs
    simp only [isHighHalf, isLowHalf, Bool.and_eq_true, decide_eq_true_eq] at hhigh hlow
    cases heq
    exact ⟨_, .none (.unit hvalue (by omega) (quoted_of_quotedAfter hquoted)), rfl⟩
  | case7 e cs _ c hescape ih =>
    obtain ⟨⟨s', r⟩, hs, heq⟩ := Option.map_eq_some_iff.1 h
    obtain ⟨text, hquoted, rfl⟩ := ih hs
    cases heq
    exact ⟨_, .none (.short (mem_shortEscapes hescape) (quoted_of_quotedAfter hquoted)), rfl⟩
  | case8 => cases h
  | case9 => cases h
  | case10 high c cs _ _ hallowed hquote =>
    cases high with
    | none =>
      rw [beq_iff_eq] at hquote
      cases h
      exact ⟨_, .none .close, by rw [hquote]; rfl⟩
    | some high => exact absurd rfl hallowed
  | case11 high c cs _ _ hallowed hquote ih =>
    cases high with
    | none =>
      obtain ⟨⟨s', r⟩, hs, heq⟩ := Option.map_eq_some_iff.1 h
      obtain ⟨text, hquoted, rfl⟩ := ih hs
      simp only [Option.isSome_none, Bool.false_or, Bool.or_eq_true, beq_iff_eq, decide_eq_true_eq, not_or,
        Nat.not_lt] at hallowed hquote
      cases heq
      exact ⟨_, .none (.plain hquote hallowed.1 hallowed.2 (quoted_of_quotedAfter hquoted)), rfl⟩
    | some high => exact absurd rfl hallowed
  | case12 => cases h

/-- A word that is found is there. -/
theorem lexeme?_eq_some {cs rest : List Char} {word : Lexeme} (h : lexeme? cs = some (word, rest)) :
    ∃ text, word.Spelled text ∧ cs = text ++ rest := by
  unfold lexeme? at h
  split at h
  case h_1 => cases h; exact ⟨_, .null, rfl⟩
  case h_2 => cases h; exact ⟨_, .yes, rfl⟩
  case h_3 => cases h; exact ⟨_, .no, rfl⟩
  case h_4 =>
    obtain ⟨⟨s, r⟩, hs, heq⟩ := Option.map_eq_some_iff.1 h
    obtain ⟨text, hquoted, rfl⟩ := stringFrom_eq_some hs
    cases heq
    exact ⟨_, .string (quoted_of_quotedAfter hquoted), rfl⟩
  case h_5 =>
    split at h
    · next hmark =>
      cases h
      exact ⟨_, .mark hmark, rfl⟩
    · obtain ⟨⟨number, r⟩, hfound, heq⟩ := Option.map_eq_some_iff.1 h
      obtain ⟨hnumber, hcs⟩ := number?_eq_some hfound
      cases heq
      exact ⟨_, .number hnumber, hcs⟩
  case h_6 => cases h

theorem laid_of_lexemesWithin {bound : Nat} {cs : List Char} {words : List Lexeme}
    (h : lexemesWithin bound cs = some words) : Laid words cs := by
  have hgap : IsGap (cs.takeWhile isSpace) := fun c hc => List.mem_takeWhile_imp hc
  have hcs : cs.takeWhile isSpace ++ cs.dropWhile isSpace = cs := List.takeWhile_append_dropWhile
  induction bound generalizing cs words with
  | zero =>
    rw [lexemesWithin] at h
    split at h
    · next hrest =>
      cases h
      rw [List.isEmpty_iff.1 hrest, List.append_nil] at hcs
      exact hcs ▸ .nil hgap
    · cases h
  | succ bound ih =>
    rw [lexemesWithin] at h
    split at h
    · next hrest =>
      cases h
      rw [hrest, List.append_nil] at hcs
      exact hcs ▸ .nil hgap
    · simp only [Option.bind_eq_bind, Option.bind_eq_some_iff, Option.pure_def, Option.some.injEq] at h
      obtain ⟨⟨word, rest⟩, hword, words, hwords, rfl⟩ := h
      obtain ⟨text, hspelled, htext⟩ := lexeme?_eq_some hword
      have hlaid := ih hwords (fun c hc => List.mem_takeWhile_imp hc) List.takeWhile_append_dropWhile
      rw [htext, ← List.append_assoc] at hcs
      exact hcs ▸ .cons hgap hspelled hlaid

/-- **Words that are found are there.** -/
theorem laid_of_lexemes {cs : List Char} {words : List Lexeme} (h : lexemes cs = some words) : Laid words cs :=
  laid_of_lexemesWithin h

end Octet.Json
