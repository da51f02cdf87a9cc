import Octet.LogFilter.Pattern.Class
import Octet.Text.Alphanumeric

/-!
# Patterns of field values

A filter can ask for the value of a field with a pattern in the usual notation: alternatives, groups,
classes, repetitions, anchors and escapes. Here it only matters which texts are patterns, because no
event is compared with one.

A pattern is read from left to right. Its parts may be nested up to a limit, and a repetition needs
something before it. A counted repetition ends with a closing brace, and since this brace also ends the
field, no pattern has one.

* `Pattern.isValid`: whether a text is a pattern.
-/

namespace Octet.Pattern

/-! ## Groups -/

/-- What an opening parenthesis begins. -/
inductive Opening where
  /-- A group, with the letters of its flags. -/
  | group (name : Option String) (letters : List Char)
  /-- Flags for the rest of the group that is open. -/
  | flags (letters : List Char)
  deriving DecidableEq, Repr

/-- Whether characters can be the name of a group. -/
def isGroupName : List Char → Bool
  | [] => false
  | c :: cs =>
    (c == '_' || Text.isAlphabetic c) &&
      cs.all fun c => c == '_' || c == '.' || c == '[' || c == ']' || Text.isAlphanumeric c

/-- A group with a name, and the rest. -/
def namedOpening? (cs : List Char) : Option (Opening × List Char) :=
  let name := cs.takeWhile (· != '>')
  match cs.dropWhile (· != '>') with
  | [] => none
  | _ :: rest => if isGroupName name then some (.group (some (String.ofList name)) [], rest) else none

/-- A group with flags, or flags alone, and the rest. -/
def flagOpening? (cs : List Char) : Option (Opening × List Char) :=
  let letters := cs.takeWhile fun c => c != ':' && c != ')'
  if !Flags.areLetters letters then none
  else
    match cs.dropWhile fun c => c != ':' && c != ')' with
    | ':' :: rest => some (.group none letters, rest)
    | ')' :: rest => if letters.isEmpty then none else some (.flags letters, rest)
    | _ => none

/-- What an opening parenthesis begins, and the rest. -/
def opening? (flags : Flags) (cs : List Char) : Option (Opening × List Char) :=
  match flags.skip cs with
  | '?' :: 'P' :: '<' :: rest => namedOpening? rest
  | '?' :: '<' :: rest => namedOpening? rest
  | '?' :: rest => flagOpening? rest
  | rest => some (.group none [], rest)

/-! ## The reading of a pattern -/

/-- A part of a sequence. -/
structure Part where
  depth : Nat
  /-- Whether a repetition can follow it. -/
  repeatable : Bool
  deriving DecidableEq, Repr

/-- The sequence that is being read, and the alternatives before it. -/
structure Branch where
  flags : Flags
  /-- The depths of the alternatives before. -/
  before : List Nat
  /-- The parts of the sequence, the last one first. -/
  parts : List Part
  deriving DecidableEq, Repr

namespace Branch

/-- The depth of the sequence. -/
def sequenceDepth (b : Branch) : Nat :=
  rowDepth (b.parts.map Part.depth)

/-- The depth of the alternatives, the sequence among them. -/
def depth (b : Branch) : Nat :=
  match b.before with
  | [] => b.sequenceDepth
  | depths => depths.foldl Nat.max b.sequenceDepth + 1

/-- The sequence with one more part. -/
def add (b : Branch) (part : Part) : Branch :=
  { b with parts := part :: b.parts }

/-- The next alternative. -/
def next (b : Branch) : Branch :=
  { b with before := b.sequenceDepth :: b.before, parts := [] }

/-- The sequence with its last part repeated. -/
def repeat? (b : Branch) : Option Branch :=
  match b.parts with
  | [] => none
  | part :: parts =>
    if part.repeatable then some { b with parts := ⟨part.depth + 1, true⟩ :: parts } else none

end Branch

/-- Where the reading of a pattern is. -/
structure State where
  /-- What is being read. -/
  branch : Branch
  /-- What is around the groups that are open, the innermost one first. -/
  outer : List Branch
  /-- The names of groups so far. -/
  names : List String
  deriving DecidableEq, Repr

namespace State

/-- Before the first character. -/
def initial : State := ⟨⟨.initial, [], []⟩, [], []⟩

/-- The state after an opening parenthesis, unless the name of its group was given before. -/
def enter? (s : State) : Opening → Option State
  | .flags letters =>
    let flags := s.branch.flags.update true letters
    some { s with branch := { s.branch.add ⟨0, false⟩ with flags } }
  | .group name letters =>
    if name.any s.names.contains then none
    else
      let flags := s.branch.flags.update true letters
      some ⟨⟨flags, [], []⟩, s.branch :: s.outer, name.toList ++ s.names⟩

/-- The state after a closing parenthesis, if a group is open. -/
def leave? (s : State) : Option State :=
  match s.outer with
  | [] => none
  | b :: outer => some { s with branch := b.add ⟨s.branch.depth + 1, true⟩, outer }

/-- The state after a part. -/
def add (s : State) (depth : Nat) : State :=
  { s with branch := s.branch.add ⟨depth, true⟩ }

/-- The rest after a repetition, which a question mark makes a lazy one. -/
def dropLazy : List Char → List Char
  | '?' :: cs => cs
  | cs => cs

/-- The state after the next part of a pattern, and the rest of the pattern. -/
def next? (s : State) (c : Char) (cs : List Char) : Option (State × List Char) :=
  let flags := s.branch.flags
  match c with
  | '(' =>
    match opening? flags cs with
    | some (opening, rest) => (s.enter? opening).map (·, rest)
    | none => none
  | ')' => s.leave?.map (·, cs)
  | '|' => some ({ s with branch := s.branch.next }, cs)
  | '[' => (Class.read? flags cs).map fun (depth, rest) => (s.add depth, rest)
  | '\\' =>
    match escape? flags cs with
    | some (e, rest) => if e.isAllowed flags then some (s.add 0, rest) else none
    | none => none
  | '{' => none
  | '.' => if flags.unicode then some (s.add 0, cs) else none
  | '^' => some (s.add 0, cs)
  | '$' => some (s.add 0, cs)
  | c =>
    if c == '*' || c == '+' || c == '?' then
      s.branch.repeat?.map fun branch => ({ s with branch }, dropLazy cs)
    else if flags.allowsLiteral c false then some (s.add 0, cs)
    else none

/-- How deep the parts of a pattern may be nested. -/
def depthLimit : Nat := 250

/-- Whether a pattern may end here. -/
def isFinal (s : State) : Bool :=
  s.outer.isEmpty && decide (s.branch.depth ≤ depthLimit)

/-- Whether a pattern can go on with some characters and end there. -/
def accepts : Nat → State → List Char → Bool
  | 0, _, _ => false
  | fuel + 1, s, cs =>
    match s.branch.flags.skip cs with
    | [] => s.isFinal
    | c :: rest =>
      match s.next? c rest with
      | some (s, rest) => accepts fuel s rest
      | none => false

end State

/-- Whether characters are a pattern. -/
def isValid (cs : List Char) : Bool :=
  State.initial.accepts (cs.length + 1) cs

end Octet.Pattern
