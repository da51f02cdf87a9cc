import Octet.Text.Blank

/-!
# Flags of a pattern

Flags change how the rest of a group is read. Three of them decide which patterns there are:

* `i`: letters stand for both of their cases.
* `u`: the text consists of characters, otherwise of bytes. It is on at the start.
* `x`: blanks between the parts of a pattern are skipped, and comments from `#` to the end of a line.

A pattern has to do without the tables of Unicode, and as bytes it has to match whole characters. So
with `u` no letter stands for both cases, and a class such as `\d` or an end of a word is not known;
without `u` nothing may match a byte beyond `0x7F` on its own. The predicates `Flags.allows…` say this
for each part of a pattern.

* `Flags.update`: the flags after some letters.
* `Flags.skip`: a text from its next part on.
-/

namespace Octet.Pattern

/-- How a part of a pattern is read. -/
structure Flags where
  /-- Letters stand for both of their cases. -/
  caseless : Bool
  /-- The text consists of characters, not of bytes. -/
  unicode : Bool
  /-- Blanks and comments are skipped. -/
  spaced : Bool
  deriving DecidableEq, Repr

namespace Flags

/-- The flags at the start of a pattern. -/
def initial : Flags := ⟨false, true, false⟩

/-! ## Letters -/

/-- The letters of flags, and the mark that switches those after it off. -/
def letters : List Char :=
  ['i', 'm', 's', 'U', 'u', 'R', 'x', '-']

/-- Whether characters are flags: none of them twice, and something after the mark. -/
def areLetters (cs : List Char) : Bool :=
  cs.all (fun c => letters.contains c && cs.count c == 1) && cs.getLast? != some '-'

/-- The flags with one of them set. -/
def set (flags : Flags) (c : Char) (on : Bool) : Flags :=
  match c with
  | 'i' => { flags with caseless := on }
  | 'u' => { flags with unicode := on }
  | 'x' => { flags with spaced := on }
  | _ => flags

/-- The flags after some letters, which are switched on up to the mark. -/
def update (flags : Flags) (on : Bool) : List Char → Flags
  | [] => flags
  | '-' :: cs => update flags false cs
  | c :: cs => update (flags.set c on) on cs

/-! ## Blanks and comments -/

/-- The text after blanks and comments, of which the first has begun if `comment` says so. -/
def skipBlanks (comment : Bool) : List Char → List Char
  | [] => []
  | c :: cs =>
    if comment then skipBlanks (c != '\n') cs
    else if Text.isBlank c then skipBlanks false cs
    else if c == '#' then skipBlanks true cs
    else c :: cs

/-- The text from its next part on. -/
def skip (flags : Flags) (cs : List Char) : List Char :=
  if flags.spaced then skipBlanks false cs else cs

/-- The first character that is neither blank nor the start of a comment. -/
def visible? (comment : Bool) : List Char → Option Char
  | [] => none
  | c :: cs =>
    if Text.isBlank c then visible? comment cs
    else if !comment && c == '#' then visible? true cs
    else some c

/-- The character that decides whether a dash makes a range. The text of a comment counts here. -/
def peek? (flags : Flags) (cs : List Char) : Option Char :=
  if flags.spaced then (visible? false cs).orElse fun _ => cs.head? else cs.head?

/-! ## What the flags allow -/

/-- Whether a character may stand for itself. One given by its byte is that byte if the text consists
of bytes. -/
def allowsLiteral (flags : Flags) (c : Char) (byByte : Bool) : Bool :=
  if flags.unicode then !flags.caseless else !byByte || decide (c.toNat < 128)

/-- Whether a character may stand in a class. -/
def allowsMember (flags : Flags) (c : Char) : Bool :=
  if flags.unicode then !flags.caseless else decide (c.toNat < 128)

/-- Whether a class with a name may be used. -/
def allowsNamed (flags : Flags) (negated : Bool) : Bool :=
  if flags.unicode then !flags.caseless else !negated

/-- Whether a class with a letter such as `\d` may be used. -/
def allowsShorthand (flags : Flags) (negated : Bool) : Bool :=
  !flags.unicode && !negated

/-- Whether a class in brackets may be used. -/
def allowsBrackets (flags : Flags) (negated : Bool) : Bool :=
  flags.unicode || !negated

end Flags
end Octet.Pattern
