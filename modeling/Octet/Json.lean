import Octet.Text.Numeral

/-!
# JSON documents

A strict reader: one value, blanks only where the grammar has them, no comma after the last item, no
number with a leading zero, no control character and no half of a surrogate pair in a string. Members
of an object keep their order, also if a key is repeated, and a number keeps its text.

* `Json.lexemes`: the words of a document.
* `Json.parse`: the value of a document.
-/

namespace Octet

/-- A JSON value. -/
inductive Json where
  | null
  | bool (b : Bool)
  | number (text : String)
  | string (s : String)
  | array (items : List Json)
  | object (members : List (String × Json))
  deriving Repr

namespace Json

/-- A word of a document. -/
inductive Lexeme where
  /-- A bracket, a brace, a comma or a colon. -/
  | mark (c : Char)
  | null
  | bool (b : Bool)
  | number (text : String)
  | string (s : String)
  deriving DecidableEq, Repr

/-- Whether a character may stand between the words of a document. -/
def isSpace (c : Char) : Bool :=
  c == ' ' || c == '\t' || c == '\n' || c == '\r'

/-- Whether a character is a word by itself. -/
def isMark (c : Char) : Bool :=
  ['\x7b', '\x7d', '[', ']', ',', ':'].contains c

/-- The character that a short escape stands for. -/
def shortEscape? : Char → Option Char
  | '"' => some '"'
  | '\\' => some '\\'
  | '/' => some '/'
  | 'b' => some '\x08'
  | 'f' => some '\x0c'
  | 'n' => some '\n'
  | 'r' => some '\r'
  | 't' => some '\t'
  | _ => none

/-- Whether a 16-bit unit is the first half of a pair. -/
def isHighHalf (unit : Nat) : Bool :=
  0xD800 ≤ unit && unit < 0xDC00

/-- Whether a 16-bit unit is the second half of a pair. -/
def isLowHalf (unit : Nat) : Bool :=
  0xDC00 ≤ unit && unit < 0xE000

/-- The character of a pair of halves. -/
def ofHalves (high low : Nat) : Char :=
  Char.ofNat (0x10000 + (high - 0xD800) * 0x400 + (low - 0xDC00))

/-- The rest of a string literal after its opening quote, and what follows it. `high` is the first half
of a pair that has just been read. -/
def stringFrom (high : Option Nat) : List Char → Option (List Char × List Char)
  | '\\' :: 'u' :: a :: b :: c :: d :: rest =>
    match Numeral.value? 16 [a, b, c, d], high with
    | none, _ => none
    | some unit, some h =>
      if isLowHalf unit then (stringFrom none rest).map fun (s, r) => (ofHalves h unit :: s, r)
      else none
    | some unit, none =>
      if isHighHalf unit then stringFrom (some unit) rest
      else if isLowHalf unit then none
      else (stringFrom none rest).map fun (s, r) => (Char.ofNat unit :: s, r)
  | '\\' :: e :: rest =>
    match shortEscape? e, high with
    | some c, none => (stringFrom none rest).map fun (s, r) => (c :: s, r)
    | _, _ => none
  | c :: rest =>
    if high.isSome || c == '\\' || c.toNat < 0x20 then none
    else if c == '"' then some ([], rest)
    else (stringFrom none rest).map fun (s, r) => (c :: s, r)
  | [] => none

/-- A nonempty run of digits and what follows it. -/
def digits? (cs : List Char) : Option (List Char × List Char) :=
  let run := cs.takeWhile Char.isDigit
  if run.isEmpty then none else some (run, cs.dropWhile Char.isDigit)

/-- The whole part of a number and what follows it. It has no leading zero. -/
def whole? (cs : List Char) : Option (List Char × List Char) :=
  match digits? cs with
  | some ('0' :: _ :: _, _) => none
  | found => found

/-- The fraction of a number, if there is one, and what follows it. -/
def fraction? : List Char → Option (List Char × List Char)
  | '.' :: cs => (digits? cs).map fun (ds, r) => ('.' :: ds, r)
  | cs => some ([], cs)

/-- The sign at the start of a text, if it is among `signs`, and what follows it. -/
def sign (signs : List Char) : List Char → List Char × List Char
  | c :: cs => if signs.contains c then ([c], cs) else ([], c :: cs)
  | [] => ([], [])

/-- The exponent of a number, if there is one, and what follows it. -/
def exponent? : List Char → Option (List Char × List Char)
  | c :: cs =>
    if c == 'e' || c == 'E' then
      let (s, cs) := sign ['+', '-'] cs
      (digits? cs).map fun (ds, r) => (c :: s ++ ds, r)
    else some ([], c :: cs)
  | [] => some ([], [])

/-- A number and what follows it. -/
def number? (cs : List Char) : Option (List Char × List Char) := do
  let (s, cs) := sign ['-'] cs
  let (w, cs) ← whole? cs
  let (f, cs) ← fraction? cs
  let (e, cs) ← exponent? cs
  return (s ++ w ++ f ++ e, cs)

/-- The word that a text starts with, and what follows it. -/
def lexeme? : List Char → Option (Lexeme × List Char)
  | 'n' :: 'u' :: 'l' :: 'l' :: rest => some (.null, rest)
  | 't' :: 'r' :: 'u' :: 'e' :: rest => some (.bool true, rest)
  | 'f' :: 'a' :: 'l' :: 's' :: 'e' :: rest => some (.bool false, rest)
  | '"' :: rest => (stringFrom none rest).map fun (s, r) => (.string (String.ofList s), r)
  | c :: rest =>
    if isMark c then some (.mark c, rest)
    else (number? (c :: rest)).map fun (s, r) => (.number (String.ofList s), r)
  | [] => none

/-- The words of a text, of which there are at most `bound`. -/
def lexemesWithin : Nat → List Char → Option (List Lexeme)
  | 0, cs => if (cs.dropWhile isSpace).isEmpty then some [] else none
  | bound + 1, cs =>
    match cs.dropWhile isSpace with
    | [] => some []
    | cs => do
      let (word, rest) ← lexeme? cs
      return word :: (← lexemesWithin bound rest)

/-- The words of a document. No word is empty, so the text's length bounds their number. -/
def lexemes (cs : List Char) : Option (List Lexeme) :=
  lexemesWithin cs.length cs

mutual

/-- The value that some words start with, and the words after it. -/
def valueWithin : Nat → List Lexeme → Option (Json × List Lexeme)
  | 0, _ => none
  | bound + 1, word :: rest =>
    match word with
    | .null => some (.null, rest)
    | .bool b => some (.bool b, rest)
    | .number text => some (.number text, rest)
    | .string s => some (.string s, rest)
    | .mark c =>
      if c == '[' then
        match rest with
        | .mark ']' :: rest => some (.array [], rest)
        | rest => (itemsWithin bound rest).map fun (items, r) => (.array items, r)
      else if c == '\x7b' then
        match rest with
        | .mark '\x7d' :: rest => some (.object [], rest)
        | rest => (membersWithin bound rest).map fun (members, r) => (.object members, r)
      else none
  | _ + 1, [] => none

/-- The items of an array that is not empty, up to its end, and the words after it. -/
def itemsWithin : Nat → List Lexeme → Option (List Json × List Lexeme)
  | 0, _ => none
  | bound + 1, words =>
    match valueWithin bound words with
    | some (item, .mark ',' :: rest) =>
      (itemsWithin bound rest).map fun (items, r) => (item :: items, r)
    | some (item, .mark ']' :: rest) => some ([item], rest)
    | _ => none

/-- The members of an object that is not empty, up to its end, and the words after it. -/
def membersWithin : Nat → List Lexeme → Option (List (String × Json) × List Lexeme)
  | 0, _ => none
  | bound + 1, .string key :: .mark ':' :: words =>
    match valueWithin bound words with
    | some (value, .mark ',' :: rest) =>
      (membersWithin bound rest).map fun (members, r) => ((key, value) :: members, r)
    | some (value, .mark '\x7d' :: rest) => some ([(key, value)], rest)
    | _ => none
  | _ + 1, _ => none

end

/-- The value that some words make together. Each call takes a word or hands on to one that does, so
twice their number bounds the depth. -/
def ofLexemes (words : List Lexeme) : Option Json :=
  match valueWithin (2 * words.length + 1) words with
  | some (value, []) => some value
  | _ => none

/-- The value of a document. -/
def parse (document : String) : Option Json :=
  (lexemes document.toList).bind ofLexemes

end Json
end Octet
