import Octet.Proofs.Listing
import Octet.Proofs.Tokens

/-!
# Which line of a source text is at fault

A source text is read line by line, and the first line that cannot be taken up decides the error: a line that
is no statement, or one that declares a name which a register or an earlier line has. Lines behind it do not
matter. If there is no such line, all statements are collected in the order in which they stand. How a line
ends does not matter, and a line that says nothing counts only when lines are numbered.

* `Text.IsLines`, `Text.isLines_lines`: how a text is cut into lines.
* `Program.statements`, `Program.ofStatements`: what the lines of a text say, and the program that it makes.
* `Program.Rejects`: why a line cannot be taken up.
* `Program.ofLines_eq_ok_iff`: **lines are a program if all can be read and no name is taken.**
* `Program.ofLines_eq_error_iff`: **the first line at fault decides the error.**
* `Program.Padded`, `Program.ofLines_padded`: lines that say nothing change only the number in an error.
* `Program.parse_first_fault`: all of this together.
-/

namespace Octet

open Token

/-- The error without the number of its line. -/
def Error.unnumbered : Error → Error
  | .badLine _ fault => .badLine 0 fault
  | e => e

namespace Statement

/-- The declaration that a statement is. -/
def declaration? : Statement → Option Declaration
  | define d => some d
  | instruction _ => none

/-- The instruction that a statement is. -/
def instruction? : Statement → Option Instruction
  | define _ => none
  | instruction i => some i

end Statement

/-- How a text is cut into lines. A line has no line feed in it; it ends at a line feed, at a carriage return
and a line feed, or with the text. -/
structure Text.IsLines (f : String → List String) : Prop where
  empty : f "" = []
  last : ∀ line : String, line ≠ "" → '\n' ∉ line.toList → f line = [line]
  feed : ∀ line rest : String, '\n' ∉ line.toList → line.toList.getLast? ≠ some '\r' →
    f (line ++ "\n" ++ rest) = line :: f rest
  returnFeed : ∀ line rest : String, '\n' ∉ line.toList → f (line ++ "\r\n" ++ rest) = line :: f rest

/-- A line that says nothing: it is blank, up to a comment if there is one. -/
def IsGap (line : String) : Prop :=
  ∀ c ∈ code line.toList, Text.isBlank c = true

namespace Program

/-- The statements of the lines from number `number` on, as far as they can be read. -/
def statements (number : Nat) : List String → List Statement
  | [] => []
  | line :: rest => (Statement.parse number line).toOption.join.toList ++ statements (number + 1) rest

/-- The program of some statements, declarations and instructions each in their order. -/
def ofStatements (ss : List Statement) : Program :=
  ⟨ss.filterMap Statement.declaration?, ss.filterMap Statement.instruction?⟩

/-- Why line `k` of the lines from number `number` on cannot be taken up after lines that declare `declared`:
it is no statement, or it declares the name of a register or a name that is declared before it. -/
inductive Rejects (declared : List String) (number : Nat) (lines : List String) (k : Nat) : Error → Prop
  | unreadable {line : String} {fault : LineFault} : lines[k]? = some line →
    Statement.parse (number + k) line = .error (.badLine (number + k) fault) →
      Rejects declared number lines k (.badLine (number + k) fault)
  | taken {line : String} {d : Declaration} : lines[k]? = some line →
    Statement.parse (number + k) line = .ok (some (.define d)) →
      (∃ r : Register, r.name = d.name) ∨
        d.name ∈ declared ++ (statements number (lines.take k)).flatMap declares →
      Rejects declared number lines k (.alreadyDefined d.name)

/-- Line `k` is the first one that cannot be taken up. -/
def RejectsFirst (declared : List String) (number : Nat) (lines : List String) (k : Nat) (e : Error) : Prop :=
  Rejects declared number lines k e ∧ ∀ j < k, ∀ e', ¬ Rejects declared number lines j e'

/-- Lines with some more lines among them that say nothing. -/
inductive Padded : List String → List String → Prop
  | nil : Padded [] []
  | line {line : String} {lines more : List String} : Padded lines more → Padded (line :: lines) (line :: more)
  | gap {line : String} {lines more : List String} : IsGap line → Padded lines more → Padded lines (line :: more)

end Program

/-- How the library cuts a text into lines. -/
theorem Text.isLines_lines : Text.IsLines Text.lines where
  empty := rfl
  last line hne hfeed := by
    have hlist : line.toList ≠ [] := by simpa using hne
    rw [lines, splitLines_of_not_mem hlist hfeed]
    simp
  feed line rest hfeed hlast := by
    have hlist : (line ++ "\n" ++ rest).toList = line.toList ++ '\n' :: rest.toList := by simp
    rw [lines, hlist, splitLines_append_feed hfeed hlast]
    simp [lines]
  returnFeed line rest hfeed := by
    have hlist : (line ++ "\r\n" ++ rest).toList = line.toList ++ '\r' :: '\n' :: rest.toList := by simp
    rw [lines, hlist, splitLines_append_return_feed (by decide) hfeed]
    simp [lines]

/-- A carriage return at its end changes no token of a line. -/
theorem scan_append_return (cs : List Char) : scan (String.ofList (cs ++ ['\r'])) = scan (String.ofList cs) := by
  by_cases hsemicolon : ';' ∈ cs
  · -- it is part of the comment
    obtain ⟨a, b, rfl, ha⟩ := List.eq_append_cons_of_mem hsemicolon
    simp only [scan, String.toList_ofList, List.append_assoc, List.cons_append, code_append_semicolon ha]
  · have hreturn : ';' ∉ cs ++ ['\r'] := by simpa using hsemicolon
    rw [scan_of_not_mem (by simpa using hreturn), scan_of_not_mem (by simpa using hsemicolon), String.toList_ofList,
      String.toList_ofList, scanFrom_append_cons (by decide)]
    simp [ofSeparator, scanFrom, endWord, Text.isBlank, Text.blankRanges]

/-- A line that says nothing has no tokens. -/
theorem scan_of_isGap {line : String} (h : IsGap line) : scan line = [] := by
  have key : ∀ cs : List Char, (∀ c ∈ cs, Text.isBlank c = true) → scanFrom [] cs = [] := by
    intro cs
    induction cs with
    | nil => intro _; rfl
    | cons c cs ih =>
      intro hcs
      obtain ⟨hblank, hrest⟩ := List.forall_mem_cons.1 hcs
      have hc : isWordChar c = false := by
        rw [← Bool.not_eq_true]
        intro hword
        rw [isBlank_of_isWordChar hword] at hblank
        cases hblank
      rw [scanFrom, if_neg (by simp [hc]), ofSeparator, if_pos hblank, ih hrest]
      rfl
  exact key _ h

/-- A line that cannot be read is an error with its number. -/
theorem Statement.parse_error {number : Nat} {line : String} {e : Error} (h : parse number line = .error e) :
    ∃ fault, e = .badLine number fault := by
  unfold parse at h
  cases ht : ofTokens (scan line) with
  | error fault => rw [ht] at h; cases h; exact ⟨fault, rfl⟩
  | ok found => rw [ht] at h; cases h

namespace Program

variable {declared : List String} {number k : Nat} {line : String} {lines rest : List String} {e e' : Error}

/-- The program with one more line in front, whether or not it says something. -/
def add (found : Option Statement) (p : Program) : Program :=
  found.elim p (cons · p)

/-- The names that a line declares. -/
def declaresLine (found : Option Statement) : List String :=
  found.elim [] declares

theorem ofStatements_append (found : Option Statement) (ss : List Statement) :
    ofStatements (found.toList ++ ss) = add found (ofStatements ss) := by
  cases found with
  | none => rfl
  | some s => cases s <;> rfl

theorem statements_cons {found : Option Statement} (hline : Statement.parse number line = .ok found)
    (rest : List String) : statements number (line :: rest) = found.toList ++ statements (number + 1) rest := by
  rw [statements, hline]
  rfl

theorem flatMap_declares_append (found : Option Statement) (ss : List Statement) :
    (found.toList ++ ss).flatMap declares = declaresLine found ++ ss.flatMap declares := by
  cases found <;> simp [declaresLine]

theorem isTaken_iff {name : String} :
    isTaken declared name = true ↔ (∃ r : Register, r.name = name) ∨ name ∈ declared := by
  have hregister : (Register.ofName? name).isSome = true ↔ ∃ r : Register, r.name = name := by
    rw [Option.isSome_iff_exists]
    constructor
    · rintro ⟨r, hr⟩
      exact ⟨r, by simpa using List.find?_some hr⟩
    · rintro ⟨r, rfl⟩
      exact ⟨r, Register.ofName?_name r⟩
  unfold isTaken
  rw [Bool.or_eq_true, hregister, List.contains_iff_mem]

/-- **What becomes of the first line**, and of the lines behind it. -/
theorem ofLines_line (declared : List String) (number : Nat) (line : String) (rest : List String) :
    ofLines declared number (line :: rest) =
      match Statement.parse number line with
      | .error e => .error e
      | .ok found =>
        match (declaresLine found).find? (isTaken declared) with
        | some name => .error (.alreadyDefined name)
        | none => (ofLines (declaresLine found ++ declared) (number + 1) rest).map (add found) := by
  cases hline : Statement.parse number line with
  | error e => rw [ofLines, hline]; rfl
  | ok found =>
    cases found with
    | none =>
      rw [ofLines, hline, ok_bind]
      show ofLines declared (number + 1) rest = (ofLines declared (number + 1) rest).map id
      cases ofLines declared (number + 1) rest <;> rfl
    | some s =>
      simp only [declaresLine, Option.elim_some]
      cases hfree : (declares s).find? (isTaken declared) with
      | some name => rw [ofLines, hline, ok_bind]; simp only [hfree]
      | none => exact ofLines_cons hline hfree rest

/-- There is one reason to reject a line. -/
theorem Rejects.unique (h : Rejects declared number lines k e) (h' : Rejects declared number lines k e') : e' = e := by
  cases h with
  | unreadable hk hp =>
    cases h' with
    | unreadable hk' hp' =>
      obtain rfl := Option.some.inj (hk.symm.trans hk')
      exact Except.error.inj (hp'.symm.trans hp)
    | taken hk' hp' _ =>
      obtain rfl := Option.some.inj (hk.symm.trans hk')
      cases hp.symm.trans hp'
  | taken hk hp _ =>
    cases h' with
    | unreadable hk' hp' =>
      obtain rfl := Option.some.inj (hk.symm.trans hk')
      cases hp.symm.trans hp'
    | taken hk' hp' _ =>
      obtain rfl := Option.some.inj (hk.symm.trans hk')
      cases hp.symm.trans hp'
      rfl

/-- **Lines behind the first one** are rejected for the same reasons as if they stood alone, after the names
that the first line declares. -/
theorem rejects_succ_iff {found : Option Statement} (hline : Statement.parse number line = .ok found) :
    Rejects declared number (line :: rest) (k + 1) e ↔
      Rejects (declaresLine found ++ declared) (number + 1) rest k e := by
  have hnumber : number + (k + 1) = number + 1 + k := by omega
  have hnames : ∀ name, name ∈ declared ++ (statements number ((line :: rest).take (k + 1))).flatMap declares ↔
      name ∈ (declaresLine found ++ declared) ++ (statements (number + 1) (rest.take k)).flatMap declares := by
    intro name
    rw [List.take_succ_cons, statements_cons hline, flatMap_declares_append]
    simp only [List.mem_append, or_assoc, or_left_comm]
  constructor
  · intro h
    cases h with
    | unreadable hk hp =>
      rw [hnumber] at hp ⊢
      exact .unreadable hk hp
    | taken hk hp htaken =>
      rw [hnumber] at hp
      rw [hnames] at htaken
      exact .taken hk hp htaken
  · intro h
    cases h with
    | unreadable hk hp =>
      rw [← hnumber] at hp ⊢
      exact .unreadable hk hp
    | taken hk hp htaken =>
      rw [← hnumber] at hp
      rw [← hnames] at htaken
      exact .taken hk hp htaken

/-- Only a declaration has a name that could be taken. -/
theorem eq_define_of_mem_declaresLine {found : Option Statement} {name : String} (h : name ∈ declaresLine found) :
    ∃ d, found = some (.define d) ∧ name = d.name := by
  cases found with
  | none => simp [declaresLine] at h
  | some s =>
    cases s with
    | define d => exact ⟨d, rfl, by simpa [declaresLine, declares] using h⟩
    | instruction i => simp [declaresLine, declares] at h

/-- A line that can be read and declares no name that is taken is not rejected. -/
theorem not_rejects_zero {found : Option Statement} (hline : Statement.parse number line = .ok found)
    (hfree : ∀ name ∈ declaresLine found, isTaken declared name = false) :
    ¬ Rejects declared number (line :: rest) 0 e := by
  intro h
  cases h with
  | unreadable hk hp =>
    cases hk
    rw [Nat.add_zero, hline] at hp
    cases hp
  | @taken _ d hk hp hd =>
    cases hk
    rw [Nat.add_zero, hline] at hp
    cases hp
    have htaken : isTaken declared d.name = true := isTaken_iff.2 (by simpa [statements] using hd)
    rw [hfree d.name (by simp [declaresLine, declares])] at htaken
    cases htaken

/-- **The first line is rejected, or it is taken up** and the lines behind it are read. -/
theorem ofLines_cases (declared : List String) (number : Nat) (line : String) (rest : List String) :
    (∃ e, Rejects declared number (line :: rest) 0 e ∧ ofLines declared number (line :: rest) = .error e) ∨
      ∃ found, Statement.parse number line = .ok found ∧
        (∀ name ∈ declaresLine found, isTaken declared name = false) ∧
        ofLines declared number (line :: rest) =
          (ofLines (declaresLine found ++ declared) (number + 1) rest).map (add found) := by
  have hstep := ofLines_line declared number line rest
  cases hline : Statement.parse number line with
  | error e =>
    rw [hline] at hstep
    obtain ⟨fault, rfl⟩ := Statement.parse_error hline
    exact Or.inl ⟨_, .unreadable rfl hline, hstep⟩
  | ok found =>
    rw [hline] at hstep
    simp only at hstep
    cases htaken : (declaresLine found).find? (isTaken declared) with
    | some name =>
      rw [htaken] at hstep
      have hname := List.find?_some htaken
      obtain ⟨d, rfl, rfl⟩ := eq_define_of_mem_declaresLine (List.mem_of_find?_eq_some htaken)
      refine Or.inl ⟨_, .taken rfl hline ?_, hstep⟩
      simpa [statements] using isTaken_iff.1 hname
    | none =>
      rw [htaken] at hstep
      have hfree : ∀ name ∈ declaresLine found, isTaken declared name = false := by
        simpa using List.find?_eq_none.1 htaken
      exact Or.inr ⟨found, rfl, hfree, hstep⟩

/-- **The first line at fault decides the error.** -/
theorem ofLines_eq_error_iff (lines : List String) : ∀ {declared : List String} {number : Nat} {e : Error},
    ofLines declared number lines = .error e ↔ ∃ k, RejectsFirst declared number lines k e := by
  induction lines with
  | nil =>
    intro declared number e
    constructor
    · intro h
      cases h
    · rintro ⟨k, h, -⟩
      cases h with
      | unreadable hk _ => cases hk
      | taken hk _ _ => cases hk
  | cons line rest ih =>
    intro declared number e
    obtain ⟨e₀, hrejects, heq⟩ | ⟨found, hline, hfree, heq⟩ := ofLines_cases declared number line rest
    · rw [heq, Except.error.injEq]
      constructor
      · rintro rfl
        exact ⟨0, hrejects, fun j hj => absurd hj (Nat.not_lt_zero j)⟩
      · rintro ⟨k, hk, hmin⟩
        cases k with
        | zero => exact (hrejects.unique hk).symm
        | succ k => exact absurd hrejects (hmin 0 (Nat.succ_pos k) e₀)
    · -- the first line is taken up, so the line at fault is behind it
      have hmap : (ofLines (declaresLine found ++ declared) (number + 1) rest).map (add found) = .error e ↔
          ofLines (declaresLine found ++ declared) (number + 1) rest = .error e := by
        cases ofLines (declaresLine found ++ declared) (number + 1) rest <;> simp [Except.map]
      rw [heq, hmap, ih]
      constructor
      · rintro ⟨k, hk, hmin⟩
        refine ⟨k + 1, (rejects_succ_iff hline).2 hk, ?_⟩
        intro j hj e'
        cases j with
        | zero => exact not_rejects_zero hline hfree
        | succ j => exact fun h => hmin j (Nat.lt_of_succ_lt_succ hj) e' ((rejects_succ_iff hline).1 h)
      · rintro ⟨k, hk, hmin⟩
        cases k with
        | zero => exact absurd hk (not_rejects_zero hline hfree)
        | succ k =>
          refine ⟨k, (rejects_succ_iff hline).1 hk, ?_⟩
          intro j hj e' h
          exact hmin (j + 1) (Nat.succ_lt_succ hj) e' ((rejects_succ_iff hline).2 h)

theorem isTaken_append_eq_false {names : List String} {name : String} :
    isTaken (names ++ declared) name = false ↔ name ∉ names ∧ isTaken declared name = false := by
  simp only [isTaken, Bool.or_eq_false_iff, List.contains_eq_mem, decide_eq_false_iff_not, List.mem_append, not_or]
  constructor
  · rintro ⟨hregister, hnew, hold⟩
    exact ⟨hnew, hregister, hold⟩
  · rintro ⟨hnew, hregister, hold⟩
    exact ⟨hregister, hnew, hold⟩

theorem nodup_declaresLine (found : Option Statement) : (declaresLine found).Nodup := by
  cases found with
  | none => exact List.nodup_nil
  | some s => cases s <;> simp [declaresLine, declares]

/-- Lines behind one that can be read can be read if all lines can. -/
theorem readable_cons_iff {found : Option Statement} (hline : Statement.parse number line = .ok found) :
    (∀ k line', (line :: rest)[k]? = some line' → ∃ found, Statement.parse (number + k) line' = .ok found) ↔
      ∀ k line', rest[k]? = some line' → ∃ found, Statement.parse (number + 1 + k) line' = .ok found := by
  have hnumber : ∀ k, number + (k + 1) = number + 1 + k := fun k => by omega
  constructor
  · intro h k line' hk
    exact hnumber k ▸ h (k + 1) line' hk
  · intro h k line' hk
    cases k with
    | zero => cases hk; exact ⟨found, hline⟩
    | succ k => exact hnumber k ▸ h k line' hk

/-- **Lines are a program if all of them can be read and no name is taken**, and then the program is that of
their statements. -/
theorem ofLines_eq_ok_iff (lines : List String) : ∀ {declared : List String} {number : Nat} {p : Program},
    ofLines declared number lines = .ok p ↔
      (∀ k line, lines[k]? = some line → ∃ found, Statement.parse (number + k) line = .ok found) ∧
      ((statements number lines).flatMap declares).Nodup ∧
      (∀ name ∈ (statements number lines).flatMap declares, isTaken declared name = false) ∧
      p = ofStatements (statements number lines) := by
  induction lines with
  | nil =>
    intro declared number p
    constructor
    · rintro ⟨⟩
      exact ⟨by simp, List.nodup_nil, by simp [statements], rfl⟩
    · rintro ⟨-, -, -, rfl⟩
      rfl
  | cons line rest ih =>
    intro declared number p
    obtain ⟨e, hrejects, heq⟩ | ⟨found, hline, hfree, heq⟩ := ofLines_cases declared number line rest
    · rw [heq]
      constructor
      · rintro ⟨⟩
      · rintro ⟨hread, -, hfree, -⟩
        obtain ⟨found, hline⟩ : ∃ found, Statement.parse number line = .ok found := hread 0 line rfl
        refine absurd hrejects (not_rejects_zero hline ?_)
        intro name hname
        apply hfree
        rw [statements_cons hline, flatMap_declares_append]
        exact List.mem_append_left _ hname
    · have hmap : (ofLines (declaresLine found ++ declared) (number + 1) rest).map (add found) = .ok p ↔
          ∃ q, ofLines (declaresLine found ++ declared) (number + 1) rest = .ok q ∧ p = add found q := by
        cases ofLines (declaresLine found ++ declared) (number + 1) rest <;> simp [Except.map, eq_comm]
      rw [heq, hmap, statements_cons hline, flatMap_declares_append, ofStatements_append, readable_cons_iff hline]
      simp only [ih, isTaken_append_eq_false, List.nodup_append, List.mem_append]
      constructor
      · rintro ⟨q, ⟨hrest, hnodup, hnew, rfl⟩, rfl⟩
        refine ⟨hrest, ⟨nodup_declaresLine found, hnodup, ?_⟩, ?_, rfl⟩
        · intro a ha b hb hab
          exact (hnew b hb).1 (hab ▸ ha)
        · rintro name (hname | hname)
          · exact hfree name hname
          · exact (hnew name hname).2
      · rintro ⟨hrest, ⟨-, hnodup, hne⟩, hnew, rfl⟩
        refine ⟨_, ⟨hrest, hnodup, ?_, rfl⟩, rfl⟩
        intro name hname
        exact ⟨fun h => hne name h name hname rfl, hnew name (Or.inr hname)⟩

/-- Why a line is rejected depends on it and the lines before it. -/
theorem Rejects.congr {other : List String} (h : Rejects declared number lines k e)
    (hsame : other.take (k + 1) = lines.take (k + 1)) : Rejects declared number other k e := by
  have hline : other[k]? = lines[k]? := by
    have hget := congrArg (·[k]?) hsame
    simpa using hget
  have hbefore : other.take k = lines.take k := by
    have htake := congrArg (List.take k) hsame
    simpa [List.take_take] using htake
  cases h with
  | unreadable hk hp => exact .unreadable (hline.trans hk) hp
  | taken hk hp hd => exact .taken (hline.trans hk) hp (hbefore ▸ hd)

/-- Lines with the same tokens are read alike. -/
theorem ofLines_congr (lines : List String) : ∀ {other : List String} {declared : List String} {number : Nat},
    other.map scan = lines.map scan → ofLines declared number other = ofLines declared number lines := by
  induction lines with
  | nil =>
    intro other declared number h
    rw [List.map_eq_nil_iff.1 h]
  | cons line rest ih =>
    intro other declared number h
    obtain ⟨line', rest', rfl, hline, hrest⟩ := List.map_eq_cons_iff.1 h
    have hparse : Statement.parse number line' = Statement.parse number line := by
      unfold Statement.parse
      rw [hline]
    rw [ofLines_line, ofLines_line, hparse]
    simp only [ih hrest]

/-- What a program becomes and what an error becomes do not depend on each other. -/
theorem mapError_map {x : Except Error Program} (f : Program → Program) (g : Error → Error) :
    (x.map f).mapError g = (x.mapError g).map f := by
  cases x <;> rfl

/-- **Lines that say nothing change only the number in an error.** -/
theorem ofLines_padded {more : List String} (h : Padded lines more) : ∀ {declared : List String} {number number' : Nat},
    (ofLines declared number' more).mapError Error.unnumbered =
      (ofLines declared number lines).mapError Error.unnumbered := by
  induction h with
  | nil => intro declared number number'; rfl
  | @line line lines more _ ih =>
    intro declared number number'
    rw [ofLines_line, ofLines_line]
    unfold Statement.parse
    cases Statement.ofTokens (scan line) with
    | error fault => rfl
    | ok found =>
      simp only [Except.mapError]
      cases (declaresLine found).find? (isTaken declared) with
      | some name => rfl
      | none => exact (mapError_map _ _).trans ((congrArg _ ih).trans (mapError_map _ _).symm)
  | @gap line lines more hgap _ ih =>
    intro declared number number'
    have hline : Statement.parse number' line = .ok none := by
      unfold Statement.parse
      rw [scan_of_isGap hgap]
      rfl
    have hrest : ofLines declared number' (line :: more) = (ofLines declared (number' + 1) more).map id := by
      rw [ofLines_line, hline]
      rfl
    have hmore : (ofLines declared (number' + 1) more).mapError Error.unnumbered =
        (ofLines declared number lines).mapError Error.unnumbered := ih
    rw [hrest, mapError_map, hmore]
    cases (ofLines declared number lines).mapError Error.unnumbered <;> rfl

/-- **Lines behind the first one at fault do not matter.** -/
theorem RejectsFirst.congr {other : List String} (h : RejectsFirst declared number lines k e)
    (hsame : other.take (k + 1) = lines.take (k + 1)) : RejectsFirst declared number other k e := by
  refine ⟨h.1.congr hsame, ?_⟩
  intro j hj e' hother
  have hbefore : lines.take (j + 1) = other.take (j + 1) := by
    have htake := congrArg (List.take (j + 1)) hsame
    rw [List.take_take, List.take_take, Nat.min_eq_left (by omega)] at htake
    exact htake.symm
  exact h.2 j hj e' (hother.congr hbefore)

/-- A carriage return before a line feed changes nothing. -/
theorem parse_return_feed (a b : String) : parse (a ++ "\r\n" ++ b) = parse (a ++ "\n" ++ b) := by
  have hfeed : (a ++ "\n" ++ b).toList = a.toList ++ '\n' :: b.toList := by simp
  have hreturn : (a ++ "\r\n" ++ b).toList = a.toList ++ '\r' :: '\n' :: b.toList := by simp
  have hends : '\r' ≠ '\n' := by decide
  obtain ⟨before, line, line', after, hlines, hlines', hline⟩ :=
    Text.splitLines_insert_return hends a.toList b.toList
  have hscan : scan (String.ofList line') = scan (String.ofList line) := by
    rcases hline with rfl | rfl
    · rfl
    · exact scan_append_return line
  unfold parse Text.lines
  rw [hfeed, hreturn, hlines, hlines']
  apply ofLines_congr
  simp [hscan]

/-- **A source text is read up to its first line at fault.** It is a program if every line can be read and the
names that are declared are different and belong to no register; then it has the declarations and the
instructions of the lines, each in their order. Otherwise the first line that cannot be read, or declares a
name which is taken, decides the error, and every text with the same lines up to there has this error. Another
end for a line changes nothing, and lines that say nothing change only the number in an error. -/
theorem parse_first_fault (source : String) :
    Text.IsLines Text.lines ∧
    (∀ p, parse source = .ok p ↔
      (∀ k line, (Text.lines source)[k]? = some line → ∃ found, Statement.parse (1 + k) line = .ok found) ∧
      ((statements 1 (Text.lines source)).flatMap declares).Nodup ∧
      (∀ name ∈ (statements 1 (Text.lines source)).flatMap declares, ∀ r : Register, r.name ≠ name) ∧
      p = ofStatements (statements 1 (Text.lines source))) ∧
    (∀ e, parse source = .error e ↔ ∃ k, RejectsFirst [] 1 (Text.lines source) k e) ∧
    (∀ k e, RejectsFirst [] 1 (Text.lines source) k e →
      ∀ other, (Text.lines other).take (k + 1) = (Text.lines source).take (k + 1) → parse other = .error e) ∧
    (∀ a b, source = a ++ "\n" ++ b → parse (a ++ "\r\n" ++ b) = parse source) ∧
    ∀ other, Padded (Text.lines source) (Text.lines other) →
      (parse other).mapError Error.unnumbered = (parse source).mapError Error.unnumbered := by
  refine ⟨Text.isLines_lines, ?_, ?_, ?_, ?_, ?_⟩
  · intro p
    have hfree : ∀ name, isTaken [] name = false ↔ ∀ r : Register, r.name ≠ name := by
      intro name
      rw [← Bool.not_eq_true, isTaken_iff]
      simp
    unfold parse
    rw [ofLines_eq_ok_iff]
    simp only [hfree]
  · intro e
    exact ofLines_eq_error_iff _
  · intro k e hfault other hsame
    exact (ofLines_eq_error_iff _).2 ⟨k, hfault.congr hsame⟩
  · rintro a b rfl
    exact parse_return_feed a b
  · intro other hpadded
    exact ofLines_padded hpadded

-- In the first text a name comes again before a line that cannot be read, in the second one after it.
example : parse "define x db 1\r\n ; note\ndefine X dw 2\nmov 1" = .error (.alreadyDefined "x") ∧
    parse "\u00a0\ndefine x db 1\nmov 1\ndefine x dw 2" =
      .error (.badLine 3 (.malformed .mov (.operandCount 2 1))) := by
  decide +kernel

end Program
end Octet
