import Octet.Text.Blank

/-!
# Tokens of a source line

A line is cut at its first semicolon. What remains is read as words, which are the longest runs of
ASCII letters and digits, in lowercase; blanks, which are dropped; and marks, which are all other
characters, one token each.

* `scanFrom_append_cons`: a character that is no letter or digit separates what stands before it
  from what stands after it.
-/

namespace Octet

/-- A word or a mark of a source line. -/
inductive Token where
  | word (text : String)
  | mark (char : Char)
  deriving DecidableEq, Repr

namespace Token

/-- The token as it stands in the line, words in lowercase. -/
def text : Token → String
  | word text => text
  | mark char => String.singleton char

/-- Whether a character belongs to a word: ASCII letters and digits only. -/
def isWordChar (c : Char) : Bool :=
  c.isAlphanum

/-- The line up to its first semicolon. -/
def code (line : List Char) : List Char :=
  line.takeWhile (· != ';')

/-- The word with the given letters, last one first; no word if there are no letters. -/
def endWord (letters : List Char) : List Token :=
  if letters.isEmpty then [] else [word (String.ofList letters.reverse)]

/-- The token of a character outside words. -/
def ofSeparator (c : Char) : List Token :=
  if Text.isBlank c then [] else [mark c]

/-- The tokens of `cs` after `letters`, the letters of a word that has begun, last one first. -/
def scanFrom (letters : List Char) : List Char → List Token
  | [] => endWord letters
  | c :: cs =>
    if isWordChar c then scanFrom (c.toLower :: letters) cs
    else endWord letters ++ ofSeparator c ++ scanFrom [] cs

/-- The tokens of a line. -/
def scan (line : String) : List Token :=
  scanFrom [] (code line.toList)

theorem scanFrom_append_cons {c : Char} (hc : isWordChar c = false) (letters a b : List Char) :
    scanFrom letters (a ++ c :: b) = scanFrom letters a ++ ofSeparator c ++ scanFrom [] b := by
  induction a generalizing letters with
  | nil => simp [scanFrom, hc]
  | cons x a ih => by_cases hx : isWordChar x <;> simp [scanFrom, hx, ih]

end Token
end Octet
