import Octet.LogFilter.Directive

/-!
# Log filters

A filter is a list of directives. Of those that concern an event the one with the longest target
decides, of two with one target the one with a field, and of two for the same events the later one.
Without a directive only errors are shown.

* `LogFilter.parse?`: the filter of a text such as `warn,parser=debug`.
* `LogFilter.admits`: whether an event is shown.
-/

namespace Octet

/-- Directives in the order in which they were given. -/
abbrev LogFilter := List Directive

namespace LogFilter

/-- The filter of directives that are separated by commas. -/
def parse? (text : String) : Option LogFilter :=
  (((text.toList.splitOn ',').filter (!·.isEmpty)).map String.ofList).mapM Directive.parse?

/-- The directive that decides about an event. -/
def deciding? (filter : LogFilter) (e : Event) : Option Directive :=
  (filter.filter (·.concerns e)).foldl (fun best d =>
    match best with
    | some b => if d.yieldsTo b then some b else some d
    | none => some d) none

/-- Whether an event is shown. -/
def admits (filter : LogFilter) (e : Event) : Bool :=
  match filter.deciding? e with
  | some d => decide (e.level.rank ≤ d.rank)
  | none => e.level == .error

/-- Warnings and errors. -/
def quiet : LogFilter :=
  [.everywhere (some .warn)]

/-- Warnings and errors, and everything that the machine reports. -/
def verbose : LogFilter :=
  quiet ++ [.forTarget "bytevm_core" (some .trace)]

/-- The filter of a run: the one that was asked for if its text is one, else as `trace` says. -/
def select (trace : Bool) (requested : Option String) : LogFilter :=
  (requested.bind parse?).getD (if trace then verbose else quiet)

/-- The lines of the events that are shown. -/
def render (filter : LogFilter) (events : List Event) : String :=
  String.join ((events.filter filter.admits).map fun e => e.line ++ "\n")

end LogFilter
end Octet
