import Octet.LogFilter.Pattern.Flags
import Octet.Text.Numeral

/-!
# Escapes of a pattern

A backslash gives some letters a meaning and takes the meaning of other characters away. A character
can also be given by its code, in two, four or eight hexadecimal digits.

* `escape?`: what an escape means.
-/

namespace Octet.Pattern

/-- What an escape means. -/
inductive Escape where
  /-- A character, given by its byte if `byByte` says so. -/
  | literal (c : Char) (byByte : Bool)
  /-- One of the classes that have a letter. -/
  | shorthand (negated : Bool)
  /-- An end of the text. -/
  | anchor
  /-- An end of a word. -/
  | boundary
  deriving DecidableEq, Repr

/-- The value of a number of hexadecimal digits, and the rest. -/
def digits? (flags : Flags) : Nat → Nat → List Char → Option (Nat × List Char)
  | 0, value, cs => some (value, cs)
  | _ + 1, _, [] => none
  | count + 1, value, c :: cs =>
    match Numeral.digit? 16 c with
    | some d => digits? flags count (value * 16 + d) (flags.skip cs)
    | none => none

/-- The character with a code of `count` hexadecimal digits, and the rest. -/
def code? (flags : Flags) (count : Nat) (byByte : Bool) (cs : List Char) :
    Option (Escape × List Char) :=
  match digits? flags count 0 (flags.skip cs) with
  | some (code, rest) =>
    if code.isValidChar then some (.literal (Char.ofNat code) byByte, rest) else none
  | none => none

/-- Whether a backslash makes a character stand for itself. -/
def isPlainEscape (c : Char) : Bool :=
  decide (c.toNat < 128) && !c.isAlphanum && c != '<' && c != '>'

/-- What an escape without its backslash means, and the rest. -/
def escape? (flags : Flags) : List Char → Option (Escape × List Char)
  | [] => none
  | c :: cs =>
    match c with
    | 'x' => code? flags 2 true cs
    | 'u' => code? flags 4 false cs
    | 'U' => code? flags 8 false cs
    | 'a' => some (.literal (Char.ofNat 7) false, cs)
    | 't' => some (.literal '\t' false, cs)
    | 'n' => some (.literal '\n' false, cs)
    | 'v' => some (.literal (Char.ofNat 11) false, cs)
    | 'f' => some (.literal (Char.ofNat 12) false, cs)
    | 'r' => some (.literal '\r' false, cs)
    | c =>
      if ['d', 's', 'w'].contains c then some (.shorthand false, cs)
      else if ['D', 'S', 'W'].contains c then some (.shorthand true, cs)
      else if ['A', 'z'].contains c then some (.anchor, cs)
      else if ['b', 'B', '<', '>'].contains c then some (.boundary, cs)
      else if isPlainEscape c then some (.literal c false, cs)
      else none

/-- Whether an escape may be used outside of a class. -/
def Escape.isAllowed (flags : Flags) : Escape → Bool
  | literal c byByte => flags.allowsLiteral c byByte
  | shorthand negated => flags.allowsShorthand negated
  | anchor => true
  | boundary => !flags.unicode

/-- Whether an escape may be used as a member of a class. -/
def Escape.isMember (flags : Flags) : Escape → Bool
  | literal c _ => flags.allowsMember c
  | shorthand negated => flags.allowsShorthand negated
  | anchor => false
  | boundary => false

end Octet.Pattern
