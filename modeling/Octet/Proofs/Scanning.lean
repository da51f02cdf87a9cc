import Octet.Text.Line
import Octet.Token

/-!
# Words and lines of a text

The scanner finds a word that is already in lowercase as it stands, up to the next character that belongs
to no word. What it makes of any text are such words. Lines that are written one after the other, each
with its line feed, are found again.

* `Token.IsWord`: a word as the scanner makes it.
* `Token.scanFrom_word`: **a word before a separator is found as it stands.**
* `Token.isWord_of_mem_scan`: every word of a scanned line is in that form.
* `Text.splitLines_flatMap`: **written lines are found again.**
* `Text.splitLines_insert_return`: a carriage return more at a line's end changes that line at most.
-/

namespace Octet

namespace Token

/-- A word as the scanner makes it: letters and digits in lowercase, and at least one. -/
structure IsWord (cs : List Char) : Prop where
  ne_nil : cs ≠ []
  char : ∀ c ∈ cs, isWordChar c = true ∧ c.toLower = c

/-- A word can be told from its letters. -/
theorem IsWord.of_all {cs : List Char} (hne : cs ≠ [])
    (hcs : (cs.all fun c => isWordChar c && c.toLower == c) = true) : IsWord cs :=
  ⟨hne, by simpa using hcs⟩

theorem toLower_toLower (c : Char) : c.toLower.toLower = c.toLower := by
  unfold Char.toLower
  split
  case isTrue h =>
    have hle := UInt32.le_iff_toNat_le.1 h.1
    have hge := UInt32.le_iff_toNat_le.1 h.2
    rw [dif_neg]
    intro h'
    have hup := UInt32.le_iff_toNat_le.1 h'.2
    simp only [UInt32.toNat_add, Char.reduceVal, UInt32.reduceToNat, UInt32.reduceSub] at hle hge hup
    omega
  case isFalse h => rfl

theorem isWordChar_of_isDigit {c : Char} (hc : c.isDigit = true) : isWordChar c = true ∧ c.toLower = c := by
  refine ⟨by simp [isWordChar, Char.isAlphanum, hc], ?_⟩
  simp only [Char.isDigit, Bool.and_eq_true, decide_eq_true_eq, ge_iff_le, UInt32.le_iff_toNat_le, Char.reduceVal,
    UInt32.reduceToNat] at hc
  unfold Char.toLower
  rw [dif_neg]
  rintro ⟨hle, -⟩
  simp only [ge_iff_le, UInt32.le_iff_toNat_le, Char.reduceVal, UInt32.reduceToNat] at hle
  omega

theorem isWordChar_toLower {c : Char} (hc : isWordChar c = true) : isWordChar c.toLower = true := by
  unfold Char.toLower
  split
  case isTrue h =>
    have hle := UInt32.le_iff_toNat_le.1 h.1
    have hge := UInt32.le_iff_toNat_le.1 h.2
    simp only [Char.reduceVal, UInt32.reduceToNat] at hle hge
    have hlower : (c.val + ('a'.val - 'A'.val)).toNat = c.val.toNat + 32 := by
      simp only [UInt32.toNat_add, Char.reduceVal, UInt32.reduceToNat, UInt32.reduceSub]
      omega
    -- what becomes of a capital is a small letter, which belongs to a word
    have hsmall : 'a'.val ≤ c.val + ('a'.val - 'A'.val) ∧ c.val + ('a'.val - 'A'.val) ≤ 'z'.val := by
      rw [UInt32.le_iff_toNat_le, UInt32.le_iff_toNat_le, hlower]
      simp only [Char.reduceVal, UInt32.reduceToNat]
      omega
    show ((_ || (decide ('a'.val ≤ _) && decide (_ ≤ 'z'.val))) || _) = true
    rw [decide_eq_true hsmall.1, decide_eq_true hsmall.2]
    simp
  case isFalse h => exact hc

/-- Letters in lowercase are added to the word that has begun. -/
theorem scanFrom_letters {cs : List Char} (hcs : ∀ c ∈ cs, isWordChar c = true ∧ c.toLower = c) :
    ∀ letters, scanFrom letters cs = endWord (cs.reverse ++ letters) := by
  induction cs with
  | nil => intro letters; rfl
  | cons c cs ih =>
    intro letters
    obtain ⟨hc, hlower⟩ := hcs c List.mem_cons_self
    rw [scanFrom, if_pos hc, hlower, ih (fun c' hc' => hcs c' (List.mem_cons_of_mem _ hc'))]
    simp

theorem scanFrom_word {cs : List Char} (hcs : IsWord cs) : scanFrom [] cs = [word (String.ofList cs)] := by
  rw [scanFrom_letters hcs.char]
  simp [endWord, hcs.ne_nil]

/-- **A word before a separator is found as it stands.** -/
theorem scanFrom_word_append {cs : List Char} (hcs : IsWord cs) {c : Char} (hc : isWordChar c = false)
    (rest : List Char) :
    scanFrom [] (cs ++ c :: rest) = word (String.ofList cs) :: (ofSeparator c ++ scanFrom [] rest) := by
  rw [scanFrom_append_cons hc, scanFrom_word hcs]
  rfl

/-- Whatever is scanned, the words are in the form that the scanner makes. -/
theorem isWord_of_mem_scanFrom {w : String} (cs : List Char) : ∀ letters,
    (∀ c ∈ letters, isWordChar c = true ∧ c.toLower = c) → word w ∈ scanFrom letters cs → IsWord w.toList := by
  -- a word is made of the letters that have been collected, and these are all in lowercase
  have hend : ∀ letters, (∀ c ∈ letters, isWordChar c = true ∧ c.toLower = c) →
      word w ∈ endWord letters → IsWord w.toList := by
    intro letters hletters hw
    unfold endWord at hw
    split at hw
    · cases hw
    · rename_i hne
      simp only [List.mem_singleton, word.injEq] at hw
      rw [hw, String.toList_ofList]
      exact ⟨by simpa using hne, by simpa using hletters⟩
  induction cs with
  | nil => exact hend
  | cons c cs ih =>
    intro letters hletters hw
    rw [scanFrom] at hw
    split at hw
    · rename_i hc
      refine ih (c.toLower :: letters) ?_ hw
      intro c' hc'
      rcases List.mem_cons.1 hc' with rfl | hc'
      · exact ⟨isWordChar_toLower hc, toLower_toLower c⟩
      · exact hletters c' hc'
    · simp only [List.mem_append] at hw
      rcases hw with (hw | hw) | hw
      · exact hend letters hletters hw
      · unfold ofSeparator at hw
        split at hw <;> simp at hw
      · exact ih [] (by simp) hw

theorem isWord_of_mem_scan {w line : String} (hw : word w ∈ scan line) : IsWord w.toList :=
  isWord_of_mem_scanFrom _ [] (by simp) hw

/-- A line without a semicolon has no comment. -/
theorem code_of_not_mem {cs : List Char} (h : ';' ∉ cs) : code cs = cs := by
  have hall : ∀ c ∈ cs, (c != ';') = true := by
    intro c hc
    rw [bne_iff_ne]
    rintro rfl
    exact h hc
  simpa [code] using @List.takeWhile_append_of_pos _ _ cs [] hall

end Token

namespace Text

variable {α : Type} [DecidableEq α] {feed ret : α}

/-- A character that ends no line is the first one of the first line. -/
theorem splitLines_cons_of_cons {c : α} {cs line : List α} {lines : List (List α)} (hfeed : c ≠ feed)
    (hend : ¬ (c = ret ∧ cs.head? = some feed)) (hcs : splitLines feed ret cs = line :: lines) :
    splitLines feed ret (c :: cs) = (c :: line) :: lines := by
  rw [splitLines, if_neg hfeed, if_neg hend, hcs]

/-- The last line may have no end. -/
theorem splitLines_of_not_mem {line : List α} (hne : line ≠ []) (hfeed : feed ∉ line) :
    splitLines feed ret line = [line] := by
  induction line with
  | nil => exact absurd rfl hne
  | cons c line ih =>
    rw [List.mem_cons, not_or] at hfeed
    have hhead : line.head? ≠ some feed := fun h => hfeed.2 (List.mem_of_mem_head? h)
    by_cases hline : line = []
    · subst hline
      rw [splitLines, if_neg (Ne.symm hfeed.1), if_neg (fun h => hhead h.2)]
      rfl
    · exact splitLines_cons_of_cons (Ne.symm hfeed.1) (fun h => hhead h.2) (ih hline hfeed.2)

/-- A line before a line feed, if it has no line feed in it and does not end with a carriage return. -/
theorem splitLines_append_feed {line : List α} (hfeed : feed ∉ line) (hlast : line.getLast? ≠ some ret)
    (rest : List α) : splitLines feed ret (line ++ feed :: rest) = line :: splitLines feed ret rest := by
  induction line with
  | nil => exact splitLines_feed feed ret rest
  | cons c line ih =>
    rw [List.mem_cons, not_or] at hfeed
    -- only at the end of the line could a carriage return stand before a line feed
    have hend : ¬ (c = ret ∧ (line ++ feed :: rest).head? = some feed) := by
      rintro ⟨rfl, hhead⟩
      cases line with
      | nil => exact hlast rfl
      | cons d line => exact hfeed.2 (by simpa using Or.inl (Option.some.inj hhead).symm)
    have hline : line.getLast? ≠ some ret := by
      intro h
      apply hlast
      rw [List.getLast?_cons, h]
      rfl
    exact splitLines_cons_of_cons (Ne.symm hfeed.1) hend (ih hfeed.2 hline)

/-- A line before a carriage return and a line feed, if it has no line feed in it. -/
theorem splitLines_append_return_feed (hret : ret ≠ feed) {line : List α} (hfeed : feed ∉ line) (rest : List α) :
    splitLines feed ret (line ++ ret :: feed :: rest) = line :: splitLines feed ret rest := by
  induction line with
  | nil => exact splitLines_return_feed hret rest
  | cons c line ih =>
    rw [List.mem_cons, not_or] at hfeed
    have hhead : (line ++ ret :: feed :: rest).head? ≠ some feed := by
      cases line with
      | nil => simpa using hret
      | cons d line =>
        rw [List.cons_append, List.head?_cons]
        rintro ⟨⟩
        exact hfeed.2 List.mem_cons_self
    exact splitLines_cons_of_cons (Ne.symm hfeed.1) (fun h => hhead h.2) (ih hfeed.2)

/-- **Written lines are found again.** -/
theorem splitLines_flatMap {lines : List (List α)} (hlines : ∀ line ∈ lines, ∀ c ∈ line, c ≠ feed ∧ c ≠ ret) :
    splitLines feed ret (lines.flatMap fun line => line ++ [feed]) = lines := by
  induction lines with
  | nil => rfl
  | cons line lines ih =>
    have hline := hlines line List.mem_cons_self
    have hfeed : feed ∉ line := fun h => (hline feed h).1 rfl
    have hlast : line.getLast? ≠ some ret := fun h => (hline ret (List.mem_of_getLast? h)).2 rfl
    rw [List.flatMap_cons, List.append_assoc, List.singleton_append, splitLines_append_feed hfeed hlast,
      ih fun line' h => hlines line' (List.mem_cons_of_mem _ h)]

/-- **Another end for one line.** A carriage return before a line feed is part of the line's end, unless there
was one already; then it is the last character of the line. -/
theorem splitLines_insert_return (hret : ret ≠ feed) (a b : List α) :
    ∃ before line line' after, splitLines feed ret (a ++ feed :: b) = before ++ line :: after ∧
      splitLines feed ret (a ++ ret :: feed :: b) = before ++ line' :: after ∧
      (line' = line ∨ line' = line ++ [ret]) := by
  induction a with
  | nil => exact ⟨[], [], [], _, splitLines_feed feed ret b, splitLines_return_feed hret b, Or.inl rfl⟩
  | cons c a ih =>
    obtain ⟨before, line, line', after, hfeed, hreturn, hline⟩ := ih
    by_cases hc : c = feed
    · subst hc
      refine ⟨[] :: before, line, line', after, ?_, ?_, hline⟩
      · rw [List.cons_append, splitLines_feed, hfeed, List.cons_append]
      · rw [List.cons_append, splitLines_feed, hreturn, List.cons_append]
    by_cases hend : c = ret ∧ (a ++ feed :: b).head? = some feed
    · obtain ⟨rfl, hhead⟩ := hend
      cases a with
      | nil =>
        -- the new carriage return stands behind an old one, which does not end the line any more
        refine ⟨[], [], [c], splitLines feed c b, ?_, ?_, Or.inr rfl⟩
        · exact splitLines_return_feed hret b
        · exact splitLines_cons_of_cons hc (by simpa using hret) (splitLines_return_feed hret b)
      | cons d a =>
        obtain rfl : d = feed := by simpa using hhead
        refine ⟨before, line, line', after, ?_, ?_, hline⟩
        · rw [List.cons_append, splitLines, if_neg hc, if_pos (by simp), hfeed]
        · rw [List.cons_append, splitLines, if_neg hc, if_pos (by simp), hreturn]
    · have hend' : ¬ (c = ret ∧ (a ++ ret :: feed :: b).head? = some feed) := by
        cases a with
        | nil => simpa using fun _ => hret
        | cons d a => simpa using hend
      cases before with
      | nil =>
        refine ⟨[], c :: line, c :: line', after, splitLines_cons_of_cons hc hend hfeed,
          splitLines_cons_of_cons hc hend' hreturn, ?_⟩
        rcases hline with rfl | rfl
        · exact Or.inl rfl
        · exact Or.inr rfl
      | cons first before =>
        exact ⟨(c :: first) :: before, line, line', after, splitLines_cons_of_cons hc hend hfeed,
          splitLines_cons_of_cons hc hend' hreturn, hline⟩

end Text
end Octet
