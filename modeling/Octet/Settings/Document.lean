import Octet.Error
import Octet.Json
import Octet.Settings

/-!
# Settings documents

Settings are read from a JSON document of three records: the document itself, with a `general` and an
`engine` part, and these two. A record is an object whose keys are fields of it, each at most once, or
an array of its fields in order, of which the last ones may be missing. A missing field has the
standard value.

* `Settings.ofJson?`: the settings of a JSON value.
* `Settings.parse`: the settings of a document.
-/

namespace Octet

namespace Json

/-- The fields of a record that a value has, by name. -/
def record? (names : List String) : Json → Option (List (String × Json))
  | object members =>
    let keys := members.map Prod.fst
    if keys.all names.contains && decide keys.Nodup then some members else none
  | array items => if items.length ≤ names.length then some (names.zip items) else none
  | _ => none

/-- The field of a record, read by `read?`; a missing field has the value `standard`. -/
def field? {α : Type} (fields : List (String × Json)) (name : String) (standard : α)
    (read? : Json → Option α) : Option α :=
  match fields.find? fun member => member.1 == name with
  | some member => read? member.2
  | none => some standard

/-- A truth value. -/
def bool? : Json → Option Bool
  | bool b => some b
  | _ => none

/-- A number of 64 bits without sign, fraction and exponent. -/
def word64? : Json → Option UInt64
  | number text => Numeral.word64? text.toList
  | _ => none

/-- Nothing, or what `read?` reads. -/
def optional? {α : Type} (read? : Json → Option α) : Json → Option (Option α)
  | null => some none
  | value => (read? value).map some

end Json

/-- The mode that a name stands for, in either spelling. -/
def CwdMode.ofName? (name : String) : Option CwdMode :=
  if name == "WriteThrough" || name == "write_through" then some .writeThrough
  else if name == "Rebind" || name == "rebind" then some .rebind
  else none

/-- The mode of a JSON value: its name, or an object with the name as its only key and no value. -/
def CwdMode.ofJson? : Json → Option CwdMode
  | .string name => ofName? name
  | .object [(name, .null)] => ofName? name
  | _ => none

namespace Settings

/-- The settings with the general part of a document. -/
def withGeneral? (s : Settings) (value : Json) : Option Settings := do
  let fields ← value.record? ["trace_instructions", "max_steps"]
  let trace ← Json.field? fields "trace_instructions" standard.trace Json.bool?
  let maxSteps ← Json.field? fields "max_steps" standard.maxSteps (Json.optional? Json.word64?)
  return { s with trace, maxSteps }

/-- The settings with the engine part of a document. -/
def withEngine? (s : Settings) (value : Json) : Option Settings := do
  let fields ← value.record? ["cwd_mode"]
  let cwdMode ← Json.field? fields "cwd_mode" standard.cwdMode CwdMode.ofJson?
  return { s with cwdMode }

/-- The settings of a JSON value. -/
def ofJson? (value : Json) : Option Settings := do
  let fields ← value.record? ["general", "engine"]
  let s ← Json.field? fields "general" standard standard.withGeneral?
  Json.field? fields "engine" s s.withEngine?

/-- The settings of a document. -/
def parse (document : String) : Except Error Settings :=
  match (Json.parse document).bind ofJson? with
  | some settings => .ok settings
  | none => .error .badSettings

end Settings
end Octet
