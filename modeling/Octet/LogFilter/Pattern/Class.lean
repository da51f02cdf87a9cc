import Octet.LogFilter.Pattern.Escape

/-!
# Classes of a pattern

A class in brackets has characters, ranges of characters, named classes such as `[:alpha:]`, and
classes in brackets as its members. Two equal marks `&&`, `--` or `~~` combine what is before them with
what is after them.

* `Class.read?`: the rest after a class, and how deep it is.
-/

namespace Octet.Pattern

/-- The depth of parts in a row: that of the only part, or one more than the deepest. -/
def rowDepth : List Nat → Nat
  | [] => 0
  | [depth] => depth
  | depths => depths.foldl Nat.max 0 + 1

namespace Class

/-- A class in brackets as far as it has been read. -/
structure Open where
  negated : Bool
  /-- The depth of what is before the last mark that combines. -/
  left : Option Nat
  /-- The depths of the members since then. -/
  members : List Nat
  deriving DecidableEq, Repr

namespace Open

/-- The class with one more member. -/
def add (o : Open) (depth : Nat) : Open :=
  { o with members := depth :: o.members }

/-- The depth of what has been read. -/
def depth (o : Open) : Nat :=
  match o.left with
  | none => rowDepth o.members
  | some depth => Nat.max depth (rowDepth o.members) + 1

/-- The class after a mark that combines. -/
def combine (o : Open) : Open :=
  { o with left := some o.depth, members := [] }

end Open

/-! ## The start of a class -/

/-- The text without a mark of negation at its front, and whether there was one. -/
def negation : List Char → Bool × List Char
  | '^' :: cs => (true, cs)
  | cs => (false, cs)

/-- The dashes at the front of a text, as members without depth, and the rest. -/
def dashes (flags : Flags) : Nat → List Char → List Nat × List Char
  | fuel + 1, '-' :: cs =>
    let (members, rest) := dashes flags fuel (flags.skip cs)
    (0 :: members, rest)
  | _, cs => ([], cs)

/-- The members that stand for themselves only at the start: dashes, or else one closing bracket. -/
def firstMembers (flags : Flags) (cs : List Char) : List Nat × List Char :=
  match dashes flags cs.length cs with
  | ([], ']' :: rest) => ([0], flags.skip rest)
  | result => result

/-- A class of which the opening bracket has been read, and the rest. -/
def start? (flags : Flags) (cs : List Char) : Option (Open × List Char) :=
  let (negated, cs) := negation (flags.skip cs)
  let (members, rest) := firstMembers flags (flags.skip cs)
  if members.isEmpty || flags.allowsMember '-' then some (⟨negated, none, members⟩, rest) else none

/-! ## The members of a class -/

/-- The classes that have a name. -/
def names : List String :=
  ["alnum", "alpha", "ascii", "blank", "cntrl", "digit", "graph", "lower", "print", "punct", "space",
    "upper", "word", "xdigit"]

/-- Whether a named class is negated, and the rest after it; its bracket has been read. -/
def named? : List Char → Option (Bool × List Char)
  | ':' :: cs =>
    let (negated, cs) := negation cs
    match cs.dropWhile (· != ':') with
    | ':' :: ']' :: rest =>
      if names.contains (String.ofList (cs.takeWhile (· != ':'))) then some (negated, rest) else none
    | _ => none
  | _ => none

/-- One character of a class or an escape, and the rest. -/
def item? (flags : Flags) : List Char → Option (Escape × List Char)
  | [] => none
  | '\\' :: cs => escape? flags cs
  | c :: cs => some (.literal c false, cs)

/-- The rest after the end of a range, which must not come before its start. -/
def rangeEnd? (flags : Flags) (low : Escape) (cs : List Char) : Option (List Char) :=
  match low, item? flags cs with
  | .literal c _, some (.literal d _, rest) =>
    if flags.allowsMember c && flags.allowsMember d && decide (c ≤ d) then some rest else none
  | _, _ => none

/-- The rest after a character, an escape or a range. A dash before a bracket or a dash makes none. -/
def member? (flags : Flags) (cs : List Char) : Option (List Char) :=
  match item? flags cs with
  | none => none
  | some (item, rest) =>
    match flags.skip rest with
    | '-' :: more =>
      if flags.peek? more == some ']' || flags.peek? more == some '-' then
        if item.isMember flags then some ('-' :: more) else none
      else rangeEnd? flags item (flags.skip more)
    | rest => if item.isMember flags then some rest else none

/-- The depth of a class inside of `outer` and the rest after the outermost one. -/
def members? (flags : Flags) : Nat → Open → List Open → List Char → Option (Nat × List Char)
  | 0, _, _, _ => none
  | fuel + 1, o, outer, cs =>
    match flags.skip cs with
    | [] => none
    | ']' :: rest =>
      if flags.allowsBrackets o.negated then
        match outer with
        | [] => some (o.depth + 1, rest)
        | next :: outer => members? flags fuel (next.add (o.depth + 1)) outer rest
      else none
    | '[' :: rest =>
      match named? rest, start? flags rest with
      | some (negated, rest), _ =>
        if flags.allowsNamed negated then members? flags fuel (o.add 0) outer rest else none
      | none, some (inner, rest) => members? flags fuel inner (o :: outer) rest
      | none, none => none
    | '&' :: '&' :: rest => members? flags fuel o.combine outer rest
    | '-' :: '-' :: rest => members? flags fuel o.combine outer rest
    | '~' :: '~' :: rest => members? flags fuel o.combine outer rest
    | c :: rest =>
      match member? flags (c :: rest) with
      | some rest => members? flags fuel (o.add 0) outer rest
      | none => none

/-- The depth of a class of which the opening bracket has been read, and the rest after it. -/
def read? (flags : Flags) (cs : List Char) : Option (Nat × List Char) :=
  match start? flags cs with
  | some (o, rest) => members? flags (rest.length + 1) o [] rest
  | none => none

end Class
end Octet.Pattern
