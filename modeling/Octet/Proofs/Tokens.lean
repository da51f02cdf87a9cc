import Octet.Proofs.Scanning

/-!
# Which tokens a line has

A line without a comment is a run of letters and digits, or it is such a run, a character that separates, and
another line. The scanner reads it along this cut: the run is a word, and the separator is a mark or nothing.
Four laws say so without the loop that carries a word that has begun, and no other function obeys them.

* `Token.runs_induction`: what holds of runs, and of a line if it holds behind its first separator, holds of
  all lines.
* `Token.IsScanner`, `Token.IsScanner.eq_scan`: **the laws of a scanner determine it.**
* `Token.IsSpan`, `Token.exists_isSpan`: **a word is a longest run of letters and digits.**
* `Token.flatMap_text_scanFrom`: what the tokens keep of a line.
* `Token.scan_intercalate`: tokens that stand apart from each other are scanned as they are.
* `Token.scan_determined`: all of this together.
-/

namespace Octet.Token

open Text

/-- The laws of a scanner. The line ends at its first semicolon. Before it, letters and digits alone are one
word in lowercase, an empty line has no tokens, and any other character stands between what is scanned before
it and what is scanned behind it. -/
structure IsScanner (f : String → List Token) : Prop where
  comment : ∀ a b : String, ';' ∉ a.toList → f (a ++ ";" ++ b) = f a
  word : ∀ a : String, a ≠ "" → (∀ c ∈ a.toList, c.isAlphanum = true) → f a = [.word a.toLower]
  empty : f "" = []
  separator : ∀ (a : String) (c : Char) (b : String), ';' ∉ (a ++ String.singleton c ++ b).toList →
    c.isAlphanum = false →
      f (a ++ String.singleton c ++ b) = f a ++ (if isBlank c = true then [] else [.mark c]) ++ f b

/-- In `cs`, the letters and digits `run` stand after `a` and before `b`, and neither side could give them
one more. -/
structure IsSpan (cs a run b : List Char) : Prop where
  eq : cs = a ++ run ++ b
  ne_nil : run ≠ []
  run : ∀ c ∈ run, c.isAlphanum = true
  before : ∀ c, a.getLast? = some c → c.isAlphanum = false
  after : ∀ c, b.head? = some c → c.isAlphanum = false

/-- A token as the scanner makes it. -/
def IsToken : Token → Prop
  | .word w => IsWord w.toList
  | .mark c => isWordChar c = false ∧ isBlank c = false ∧ c ≠ ';'

section Characters

variable {c : Char}

theorem isBlank_of_isWordChar (hc : isWordChar c = true) : isBlank c = false := by
  have hrange : (48 ≤ c.toNat ∧ c.toNat ≤ 57) ∨ (65 ≤ c.toNat ∧ c.toNat ≤ 90) ∨ (97 ≤ c.toNat ∧ c.toNat ≤ 122) := by
    unfold isWordChar Char.isAlphanum Char.isAlpha Char.isUpper Char.isLower at hc
    simp only [Char.isDigit, Bool.or_eq_true, Bool.and_eq_true, decide_eq_true_eq, ge_iff_le,
      UInt32.le_iff_toNat_le, Char.reduceVal, UInt32.reduceToNat] at hc
    unfold Char.toNat
    omega
  rw [← Bool.not_eq_true]
  simp only [isBlank, blankRanges, List.any_cons, List.any_nil, Bool.or_eq_true, Bool.and_eq_true, Nat.ble_eq,
    Bool.false_eq_true, or_false]
  omega

theorem isUpper_iff : c.isUpper = true ↔ c.val ≥ 'A'.val ∧ c.val ≤ 'Z'.val := by
  unfold Char.isUpper
  exact decide_eq_true_iff

/-- Only capital letters change in lowercase, and they are letters. -/
theorem toLower_of_not_isWordChar (hc : isWordChar c = false) : c.toLower = c := by
  unfold Char.toLower
  rw [dif_neg]
  intro hcapital
  have hupper : c.isUpper = true := isUpper_iff.2 hcapital
  unfold isWordChar Char.isAlphanum Char.isAlpha at hc
  simp [hupper] at hc

/-- What is left in lowercase are small letters and digits. -/
theorem isLower_or_isDigit (hc : isWordChar c = true) (hlower : c.toLower = c) :
    c.isLower = true ∨ c.isDigit = true := by
  unfold isWordChar Char.isAlphanum Char.isAlpha at hc
  rw [Bool.or_eq_true, Bool.or_eq_true] at hc
  rcases hc with (hupper | hsmall) | hdigit
  · -- a capital letter is not its own lowercase
    unfold Char.toLower at hlower
    rw [dif_pos (isUpper_iff.1 hupper)] at hlower
    have hval : c.val + ('a'.val - 'A'.val) = c.val := congrArg Char.val hlower
    simp at hval
  · exact Or.inl hsmall
  · exact Or.inr hdigit

end Characters

/-- **A line is a run of letters and digits, or a run, a separator and a line.** What holds of runs, and of a
line if it holds behind the first separator, holds of all lines. -/
theorem runs_induction {P : List Char → Prop} (run : ∀ cs, (∀ c ∈ cs, isWordChar c = true) → P cs)
    (separator : ∀ cs c rest, (∀ c ∈ cs, isWordChar c = true) → isWordChar c = false → P rest →
      P (cs ++ c :: rest)) (cs : List Char) : P cs := by
  -- the letters that have been passed are kept in front, as the scanner keeps the word that has begun
  have key : ∀ cs letters, (∀ c ∈ letters, isWordChar c = true) → P (letters ++ cs) := by
    intro cs
    induction cs with
    | nil =>
      intro letters hletters
      rw [List.append_nil]
      exact run letters hletters
    | cons c cs ih =>
      intro letters hletters
      by_cases hc : isWordChar c = true
      · have hmore : ∀ c' ∈ letters ++ [c], isWordChar c' = true := by
          simpa [or_imp, forall_and] using ⟨hletters, hc⟩
        simpa using ih (letters ++ [c]) hmore
      · exact separator letters c cs hletters (by simpa using hc) (ih [] (by simp))
  exact key cs [] (by simp)

/-- Letters and digits are added to the word that has begun, in lowercase. -/
theorem scanFrom_run {cs : List Char} (hcs : ∀ c ∈ cs, isWordChar c = true) :
    ∀ letters, scanFrom letters cs = endWord ((cs.map Char.toLower).reverse ++ letters) := by
  induction cs with
  | nil => intro letters; rfl
  | cons c cs ih =>
    intro letters
    rw [scanFrom, if_pos (hcs c List.mem_cons_self), ih fun c' hc' => hcs c' (List.mem_cons_of_mem _ hc')]
    simp

/-- **A run of letters and digits is one word**, in lowercase. -/
theorem scanFrom_run_of_ne_nil {cs : List Char} (hne : cs ≠ []) (hcs : ∀ c ∈ cs, isWordChar c = true) :
    scanFrom [] cs = [.word (String.ofList (cs.map Char.toLower))] := by
  rw [scanFrom_run hcs]
  simp [endWord, hne]

/-- A mark is a character of the text that belongs to no word and is not blank. -/
theorem mem_of_mark_mem_scanFrom {d : Char} (cs : List Char) : ∀ letters, .mark d ∈ scanFrom letters cs →
    d ∈ cs ∧ isWordChar d = false ∧ isBlank d = false := by
  have hend : ∀ letters, .mark d ∉ endWord letters := by
    intro letters
    unfold endWord
    split <;> simp
  induction cs with
  | nil => intro letters hd; exact absurd hd (hend letters)
  | cons c cs ih =>
    intro letters hd
    rw [scanFrom] at hd
    split at hd
    case isTrue =>
      obtain ⟨hmem, hchar⟩ := ih _ hd
      exact ⟨List.mem_cons_of_mem _ hmem, hchar⟩
    case isFalse hc =>
      rw [List.mem_append, List.mem_append] at hd
      rcases hd with (hd | hd) | hd
      · exact absurd hd (hend letters)
      · unfold ofSeparator at hd
        split at hd
        case isTrue => cases hd
        case isFalse hblank =>
          obtain rfl : d = c := by simpa using hd
          exact ⟨List.mem_cons_self, by simpa using hc, by simpa using hblank⟩
      · obtain ⟨hmem, hchar⟩ := ih _ hd
        exact ⟨List.mem_cons_of_mem _ hmem, hchar⟩

theorem not_mem_code (cs : List Char) : ';' ∉ code cs := by
  intro h
  have hne := List.all_eq_true.1 List.all_takeWhile _ h
  simp at hne

/-- What stands before the first semicolon is what counts. -/
theorem code_append_semicolon {cs : List Char} (hcs : ';' ∉ cs) (rest : List Char) : code (cs ++ ';' :: rest) = cs := by
  have hall : ∀ c ∈ cs, (c != ';') = true := by
    intro c hc
    rw [bne_iff_ne]
    rintro rfl
    exact hcs hc
  rw [code, List.takeWhile_append_of_pos hall]
  simp

theorem scan_of_not_mem {line : String} (h : ';' ∉ line.toList) : scan line = scanFrom [] line.toList := by
  rw [scan, code_of_not_mem h]

/-- **Whatever is scanned is a token as the scanner makes it.** -/
theorem isToken_of_mem_scan {line : String} {t : Token} (ht : t ∈ scan line) : t.IsToken := by
  cases t with
  | word w => exact isWord_of_mem_scan ht
  | mark d =>
    obtain ⟨hmem, hchar, hblank⟩ := mem_of_mark_mem_scanFrom _ _ ht
    refine ⟨hchar, hblank, ?_⟩
    rintro rfl
    exact not_mem_code _ hmem

/-- All words that stand with a separator in front stand behind it. -/
theorem exists_of_ofSeparator_append {c : Char} {ts before after : List Token} {w : String}
    (h : ofSeparator c ++ ts = before ++ .word w :: after) :
    ∃ before', before = ofSeparator c ++ before' ∧ ts = before' ++ .word w :: after := by
  unfold ofSeparator at h ⊢
  split at h
  case isTrue hblank => exact ⟨before, by simp [hblank], h⟩
  case isFalse hblank =>
    cases before with
    | nil => simp at h
    | cons t before' =>
      obtain ⟨ht, hts⟩ : mark c = t ∧ ts = before' ++ .word w :: after := by simpa using h
      exact ⟨before', by simp [hblank, ht], hts⟩

/-- A run behind a separator is as long as it was. -/
theorem IsSpan.behind {rest a run b : List Char} (h : IsSpan rest a run b) {c : Char} (hc : isWordChar c = false)
    (cs : List Char) : IsSpan (cs ++ c :: rest) (cs ++ c :: a) run b where
  eq := by simp [h.eq]
  ne_nil := h.ne_nil
  run := h.run
  before c' hc' := by
    rw [List.getLast?_append, List.getLast?_cons, Option.some_or] at hc'
    cases hlast : a.getLast? with
    | none =>
      rw [hlast] at hc'
      cases hc'
      exact hc
    | some d =>
      rw [hlast] at hc'
      cases hc'
      exact h.before _ hlast
  after := h.after

/-- **A word is a longest run of letters and digits**, between what is scanned before and behind it. -/
theorem exists_isSpan (cs : List Char) : ∀ {before after : List Token} {w : String},
    scanFrom [] cs = before ++ .word w :: after →
      ∃ a run b, IsSpan cs a run b ∧ w = String.ofList (run.map Char.toLower) ∧
        scanFrom [] a = before ∧ scanFrom [] b = after := by
  induction cs using runs_induction with
  | run cs hcs =>
    intro before after w h
    by_cases hne : cs = []
    · subst hne
      simp [scanFrom, endWord] at h
    · rw [scanFrom_run_of_ne_nil hne hcs] at h
      obtain ⟨hbefore, hafter⟩ | ⟨-, hafter⟩ := List.singleton_eq_append_iff.1 h
      · obtain ⟨hw, rfl⟩ := List.cons.inj hafter
        exact ⟨[], cs, [], ⟨by simp, hne, hcs, by simp, by simp⟩, by simpa using hw, hbefore.symm, rfl⟩
      · cases hafter
  | separator cs c rest hcs hc ih =>
    intro before after w h
    -- behind the separator the words are those of the rest
    have hrest : ∀ {front : List Token}, ofSeparator c ++ scanFrom [] rest = front ++ .word w :: after →
        ∃ a run b, IsSpan (cs ++ c :: rest) (cs ++ c :: a) run b ∧ w = String.ofList (run.map Char.toLower) ∧
          scanFrom [] (cs ++ c :: a) = scanFrom [] cs ++ front ∧ scanFrom [] b = after := by
      intro front hfront
      obtain ⟨front', rfl, hfound⟩ := exists_of_ofSeparator_append hfront
      obtain ⟨a, run, b, hspan, hw, ha, hb⟩ := ih hfound
      exact ⟨a, run, b, hspan.behind hc cs, hw, by rw [scanFrom_append_cons hc, ha, List.append_assoc], hb⟩
    rw [scanFrom_append_cons hc, List.append_assoc] at h
    by_cases hne : cs = []
    · subst hne
      obtain ⟨a, run, b, hspan, hw, ha, hb⟩ := hrest h
      exact ⟨_, run, b, hspan, hw, ha, hb⟩
    · have hword := scanFrom_run_of_ne_nil hne hcs
      rw [hword, List.singleton_append] at h
      cases before with
      | nil =>
        obtain ⟨hw, rfl⟩ := List.cons.inj h
        refine ⟨[], cs, c :: rest, ⟨by simp, hne, hcs, by simp, ?_⟩, by simpa using hw.symm, rfl, ?_⟩
        · intro c' hc'
          cases hc'
          exact hc
        · exact scanFrom_append_cons hc [] [] rest
      | cons t before =>
        obtain ⟨rfl, hback⟩ := List.cons.inj h
        obtain ⟨a, run, b, hspan, hw, ha, hb⟩ := hrest hback
        exact ⟨_, run, b, hspan, hw, by rw [ha, hword]; rfl, hb⟩

/-- **What the tokens keep of a text**: all of it but the blanks, in lowercase. -/
theorem flatMap_text_scanFrom (cs : List Char) :
    (scanFrom [] cs).flatMap (fun t => t.text.toList) = (cs.filter fun c => !isBlank c).map Char.toLower := by
  have hrun : ∀ cs : List Char, (∀ c ∈ cs, isWordChar c = true) →
      (scanFrom [] cs).flatMap (fun t => t.text.toList) = (cs.filter fun c => !isBlank c).map Char.toLower := by
    intro cs hcs
    have hfilter : (cs.filter fun c => !isBlank c) = cs :=
      List.filter_eq_self.2 fun c hc => by rw [isBlank_of_isWordChar (hcs c hc)]; rfl
    by_cases hne : cs = []
    · subst hne
      rfl
    · rw [scanFrom_run_of_ne_nil hne hcs, hfilter]
      simp [text]
  induction cs using runs_induction with
  | run cs hcs => exact hrun cs hcs
  | separator cs c rest hcs hc ih =>
    have hseparator : (ofSeparator c).flatMap (fun t => t.text.toList) =
        ([c].filter fun c => !isBlank c).map Char.toLower := by
      unfold ofSeparator
      by_cases hblank : isBlank c = true
      · simp [hblank]
      · simp [hblank, text, toLower_of_not_isWordChar hc]
    rw [scanFrom_append_cons hc, List.flatMap_append, List.flatMap_append, hrun cs hcs, hseparator, ih,
      ← List.map_append, ← List.map_append, ← List.filter_append, ← List.filter_append]
    simp

/-- A token is scanned as it is. -/
theorem scanFrom_text {t : Token} (ht : t.IsToken) : scanFrom [] t.text.toList = [t] := by
  cases t with
  | word w => rw [text, scanFrom_word ht, String.ofList_toList]
  | mark c =>
    obtain ⟨hc, hblank, -⟩ := ht
    simp [text, scanFrom, hc, ofSeparator, hblank, endWord]

theorem semicolon_not_mem_text {t : Token} (ht : t.IsToken) : ';' ∉ t.text.toList := by
  cases t with
  | word w =>
    intro h
    exact absurd (ht.char _ h).1 (by decide)
  | mark c =>
    have hne : ';' ≠ c := Ne.symm ht.2.2
    simpa [text] using hne

/-- **Tokens that stand apart from each other are scanned as they are.** -/
theorem scan_intercalate (ts : List Token) : (∀ t ∈ ts, t.IsToken) → scan (" ".intercalate (ts.map text)) = ts := by
  -- no token has a semicolon in it, so nothing of the line is lost
  have key : (∀ t ∈ ts, t.IsToken) → ';' ∉ (" ".intercalate (ts.map text)).toList ∧
      scanFrom [] (" ".intercalate (ts.map text)).toList = ts := by
    induction ts with
    | nil => intro _; exact ⟨by decide, by decide⟩
    | cons t ts ih =>
      intro hts
      obtain ⟨ht, hrest⟩ := List.forall_mem_cons.1 hts
      cases ts with
      | nil => exact ⟨by simpa using semicolon_not_mem_text ht, by simpa using scanFrom_text ht⟩
      | cons u us =>
        obtain ⟨hmem, hscan⟩ := ih hrest
        have hlist : (" ".intercalate ((t :: u :: us).map text)).toList =
            t.text.toList ++ ' ' :: (" ".intercalate ((u :: us).map text)).toList := by
          simp [String.intercalate_cons_cons]
        rw [hlist]
        refine ⟨?_, ?_⟩
        · rw [List.mem_append, List.mem_cons, not_or, not_or]
          exact ⟨semicolon_not_mem_text ht, by decide, hmem⟩
        · rw [scanFrom_append_cons (by decide), scanFrom_text ht, hscan]
          rfl
  intro hts
  obtain ⟨hmem, hscan⟩ := key hts
  rw [scan_of_not_mem hmem, hscan]

theorem toList_toLower (w : String) : w.toLower.toList = w.toList.map Char.toLower := by
  unfold String.toLower
  exact String.toList_map

theorem toLower_ofList (cs : List Char) : (String.ofList cs).toLower = String.ofList (cs.map Char.toLower) := by
  apply String.ext
  rw [toList_toLower, String.toList_ofList, String.toList_ofList]

/-- The scanner obeys its laws. -/
theorem isScanner_scan : IsScanner scan where
  comment a b ha := by
    have hlist : (a ++ ";" ++ b).toList = a.toList ++ ';' :: b.toList := by simp
    rw [scan_of_not_mem ha, scan, hlist, code_append_semicolon ha]
  word a hne ha := by
    have hsemicolon : ';' ∉ a.toList := fun h => absurd (ha _ h) (by decide)
    have hlist : a.toList ≠ [] := by simpa using hne
    rw [scan_of_not_mem hsemicolon, scanFrom_run_of_ne_nil hlist ha, ← toLower_ofList, String.ofList_toList]
  empty := rfl
  separator a c b hsemicolon hc := by
    have hlist : (a ++ String.singleton c ++ b).toList = a.toList ++ c :: b.toList := by simp
    rw [hlist] at hsemicolon
    have ha : ';' ∉ a.toList := fun h => hsemicolon (List.mem_append_left _ h)
    have hb : ';' ∉ b.toList := fun h => hsemicolon (List.mem_append_right _ (List.mem_cons_of_mem _ h))
    rw [scan_of_not_mem (hlist ▸ hsemicolon), hlist, scanFrom_append_cons hc, scan_of_not_mem ha, scan_of_not_mem hb]
    rfl

/-- **The laws of a scanner determine it.** -/
theorem IsScanner.eq_scan {f : String → List Token} (hf : IsScanner f) : f = scan := by
  have hrun : ∀ cs : List Char, (∀ c ∈ cs, isWordChar c = true) → f (String.ofList cs) = scanFrom [] cs := by
    intro cs hcs
    by_cases hne : cs = []
    · subst hne
      exact hf.empty
    · rw [scanFrom_run_of_ne_nil hne hcs, ← toLower_ofList]
      exact hf.word _ (by simpa using hne) (by rw [String.toList_ofList]; exact hcs)
  have hcode : ∀ cs : List Char, ';' ∉ cs → f (String.ofList cs) = scanFrom [] cs := by
    intro cs
    induction cs using runs_induction with
    | run cs hcs => intro _; exact hrun cs hcs
    | separator cs c rest hcs hc ih =>
      intro hsemicolon
      have hrest : ';' ∉ rest := fun h => hsemicolon (List.mem_append_right _ (List.mem_cons_of_mem _ h))
      have htext : String.ofList (cs ++ c :: rest) = String.ofList cs ++ String.singleton c ++ String.ofList rest := by
        rw [String.ofList_append, String.ofList_cons, String.append_assoc]
      rw [htext, hf.separator _ _ _ (by rw [← htext]; simpa using hsemicolon) hc, hrun cs hcs, ih hrest,
        scanFrom_append_cons hc]
      rfl
  funext line
  by_cases hsemicolon : ';' ∈ line.toList
  · -- the line is its code, a semicolon and a comment
    obtain ⟨a, b, hline, ha⟩ := List.eq_append_cons_of_mem hsemicolon
    have htext : line = String.ofList a ++ ";" ++ String.ofList b := by
      apply String.ext
      simp [hline]
    rw [htext, hf.comment _ _ (by simpa using ha), isScanner_scan.comment _ _ (by simpa using ha), hcode a ha,
      scan_of_not_mem (by simpa using ha), String.toList_ofList]
  · rw [scan_of_not_mem hsemicolon, ← hcode _ hsemicolon, String.ofList_toList]

/-- **The tokens of a line.** The laws of a scanner determine it. So every word of a line is a longest run of
letters and digits, in lowercase, and what is scanned before and behind the run is what stands before and
behind the word; a mark is no letter, no digit, no blank and no semicolon. The texts of the tokens, one after
the other, are the line without its comment and its blanks, in lowercase; with a space between any two of
them, they are scanned as the same tokens. -/
theorem scan_determined :
    (∀ f : String → List Token, IsScanner f ↔ f = scan) ∧
    ∀ line : String,
      (∀ before w after, scan line = before ++ .word w :: after →
        ∃ a run b, IsSpan (code line.toList) a run b ∧ w = String.ofList (run.map Char.toLower) ∧
          scan (String.ofList a) = before ∧ scan (String.ofList b) = after) ∧
      (∀ w, .word w ∈ scan line → w ≠ "" ∧ ∀ c ∈ w.toList, c.isLower = true ∨ c.isDigit = true) ∧
      (∀ c, .mark c ∈ scan line → c.isAlphanum = false ∧ isBlank c = false ∧ c ≠ ';') ∧
      String.join ((scan line).map text) =
        String.ofList (((code line.toList).filter fun c => !isBlank c).map Char.toLower) ∧
      scan (" ".intercalate ((scan line).map text)) = scan line := by
  refine ⟨?_, ?_⟩
  · intro f
    exact ⟨IsScanner.eq_scan, fun h => h ▸ isScanner_scan⟩
  · intro line
    refine ⟨?_, ?_, ?_, ?_, ?_⟩
    · intro before w after h
      obtain ⟨a, run, b, hspan, hw, ha, hb⟩ := exists_isSpan _ h
      have hsemicolon := not_mem_code line.toList
      rw [hspan.eq] at hsemicolon
      refine ⟨a, run, b, hspan, hw, ?_, ?_⟩
      · rw [scan_of_not_mem (by simp_all), String.toList_ofList, ha]
      · rw [scan_of_not_mem (by simp_all), String.toList_ofList, hb]
    · intro w hw
      have hword := isWord_of_mem_scan hw
      refine ⟨by simpa using hword.ne_nil, ?_⟩
      intro c hc
      obtain ⟨hchar, hlower⟩ := hword.char c hc
      exact isLower_or_isDigit hchar hlower
    · intro c hc
      exact isToken_of_mem_scan hc
    · apply String.ext
      rw [String.toList_join, List.flatMap_map, String.toList_ofList]
      exact flatMap_text_scanFrom _
    · exact scan_intercalate _ fun t ht => isToken_of_mem_scan ht

-- A letter that is not of ASCII separates words, and so does a space that is not.
example : scan "Bé7,\u3000-0X1f;ax" =
    [.word "b", .mark 'é', .word "7", .mark ',', .mark '-', .word "0x1f"] := by
  decide +kernel

end Octet.Token
