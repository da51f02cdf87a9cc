import Octet.Event
import Octet.LogFilter.Pattern
import Octet.Text.Blank

/-!
# Directives of a log filter

A directive says how important events must be to be shown. It can be limited to targets that start
with a text, to a span of work, and to events that have a field, or a field with a certain value:

    level    target    target=level    target[span]=level    target[span{field}]=level

A level is a name, in letters of either case, or its number. Without a level everything is shown.

Blanks around a directive are not skipped: the text between them says at which bytes the parts of the
directive begin and end, and each part is then cut out of the whole text at these places. So a blank at
the end belongs to the last part, and blanks at the front shift every part. A cut inside of a character
makes no part.

* `Directive.parse?`: the directive of a text.
* `Directive.concerns`: whether a directive says something about an event.
-/

namespace Octet

/-- A field that is asked for, with a number or a pattern for its value. -/
structure FieldDemand where
  name : String
  value : Option String
  deriving DecidableEq, Repr

/-- How important events must be to be shown. -/
structure Directive where
  /-- The text that their target starts with. -/
  target : String
  /-- The span that they belong to. -/
  span : Option String
  /-- The field that they have. -/
  field : Option FieldDemand
  /-- The least important level that is shown; nothing is shown without one. -/
  level : Option Level
  deriving DecidableEq, Repr

/-- The demand of a field's name, or of a name and a value after an equals sign. -/
def FieldDemand.parse? (cs : List Char) : Option FieldDemand :=
  let name := String.ofList (cs.takeWhile (· != '='))
  match cs.dropWhile (· != '=') with
  | [] => if cs.isEmpty then none else some ⟨name, none⟩
  | _ :: rest =>
    let value := rest.takeWhile (· != '=')
    if Numeral.isNumber value || Pattern.isValid value then some ⟨name, some (String.ofList value)⟩
    else none

namespace Directive

/-! ## Levels -/

/-- The levels by number and by name, in order; the first one shows nothing. -/
def levelNames : List (Nat × String × Option Level) :=
  [(0, "off", none), (1, "error", some .error), (2, "warn", some .warn), (3, "info", some .info),
    (4, "debug", some .debug), (5, "trace", some .trace)]

/-- The level of a name, in letters of either case, or of a number in decimal. -/
def level? (text : String) : Option (Option Level) :=
  (levelNames.find? fun entry =>
    Numeral.value? 10 (Numeral.dropPlus text.toList) == some entry.1 ||
      entry.2.1 == text.map Char.toLower).map (·.2.2)

/-- A directive for every event. -/
def everywhere (level : Option Level) : Directive :=
  ⟨"", none, none, level⟩

/-- A directive for targets that start with a text. -/
def forTarget (target : String) (level : Option Level) : Directive :=
  ⟨target, none, none, level⟩

/-! ## The text of a directive -/

/-- Whether a target can start with a character. -/
def startsTarget (c : Char) : Bool :=
  Text.isAlphanumeric c || c == '-' || c == ':' || c == '_'

/-- A text byte by byte: the mark that stands in a place, and the byte that a part has there. -/
abbrev Reading := List (Char × UInt8)

namespace Reading

/-- The reading of some bytes with the marks in others. A byte that is no mark counts as a character
that is none. -/
def ofBytes (marks bytes : List UInt8) : Reading :=
  (marks.map Char.ofUInt8).zip bytes

/-- The text of a part, if its bytes are one. -/
def text? (r : Reading) : Option String :=
  String.fromUTF8? ⟨(r.map Prod.snd).toArray⟩

/-- The reading up to the first of some marks. -/
def before (marks : List Char) (r : Reading) : Reading :=
  r.takeWhile fun p => !marks.contains p.1

/-- The reading from the first of some marks on. -/
def behind (marks : List Char) (r : Reading) : Reading :=
  r.dropWhile fun p => !marks.contains p.1

/-- The level after an equals sign. The last part of a directive goes on with `rest`. -/
def level? (rest : List UInt8) : Reading → Option (Option Level)
  | [] => some (some .trace)
  | ('=', _) :: r =>
    match String.fromUTF8? ⟨(r.map Prod.snd ++ rest).toArray⟩ with
    | some text => if text == "" then some (some .trace) else Directive.level? text
    | none => none
  | _ => none

/-- The directive of a target with a span, a field or both, of which the bracket has been read. -/
def bracket? (target : String) (rest : List UInt8) (r : Reading) : Option Directive :=
  match behind [']', '{'] r with
  | [] => none
  | (']', _) :: after => do
    let span ← text? (before [']', '{'] r)
    let level ← level? rest after
    return ⟨target, some span, none, level⟩
  | _ :: inner =>
    match behind ['}'] inner with
    | _ :: (']', _) :: after => do
      let span ← text? (before [']', '{'] r)
      let field ← FieldDemand.parse? (← text? (before ['}'] inner)).toList
      let level ← level? rest after
      return ⟨target, if span == "" then none else some span, some field, level⟩
    | _ => none

end Reading

/-- The directive of a level or a target alone. -/
def bare (text : String) : Directive :=
  match level? text with
  | some level => everywhere level
  | none => forTarget text (some .trace)

/-- The directive of a text. -/
def parse? (text : String) : Option Directive :=
  let inner := Text.trim text.toList
  let marks := (String.ofList inner).toUTF8.data.toList
  let bytes := text.toUTF8.data.toList
  let reading := Reading.ofBytes marks bytes
  let rest := bytes.drop marks.length
  match inner with
  | [] => none
  | '[' :: _ => Reading.bracket? "" rest reading.tail
  | c :: _ =>
    if !startsTarget c then none
    else
      match Reading.behind ['=', '['] reading with
      | [] => some (bare text)
      | ('[', _) :: r => do
        let target ← Reading.text? (Reading.before ['=', '['] reading)
        Reading.bracket? target rest r
      | r => do
        let target ← Reading.text? (Reading.before ['=', '['] reading)
        let level ← Reading.level? rest r
        return forTarget target level

/-! ## What a directive says about events -/

/-- The position of a directive's level, zero if it shows nothing. -/
def rank (d : Directive) : Nat :=
  (d.level.map Level.rank).getD 0

/-- Whether a directive says something about an event. The work is not divided into spans, and a value
is only compared in spans, so a directive that asks for either says nothing about any event. -/
def concerns (d : Directive) (e : Event) : Bool :=
  d.span.isNone && d.target.toList.isPrefixOf e.target.toList &&
    d.field.all fun field => field.value.isNone && e.fieldNames.contains field.name

/-- Whether a directive gives way to another one: one with a longer target, or for one target one with
a field, or with a field whose name comes later. -/
def yieldsTo (d other : Directive) : Bool :=
  if d.target.length == other.target.length then
    match d.field, other.field with
    | none, some _ => true
    | some field, some later => decide (field.name < later.name)
    | _, none => false
  else decide (d.target.length < other.target.length)

end Directive
end Octet
