import Octet.Disk
import Octet.Machine
import Octet.Settings.Document

/-!
# Loading from files

Source files and settings documents by path.

* `Loader.source`, `Loader.program`, `Loader.machine`: a source file as text, program or machine.
* `Loader.settings`: the settings of a document.
-/

namespace Octet.Loader

/-- The text of a source file. -/
def source (disk : Disk) (path : String) : Action String := do
  let text ← disk.text path
  Action.emit (.sourceRead path text.utf8ByteSize)
  return text

/-- The program of a source file. -/
def program (disk : Disk) (path : String) : Action Program := do
  let text ← source disk path
  Program.parse text

/-- A machine with the program of a source file. -/
def machine (disk : Disk) (path : String) (settings : Settings) : Action Machine := do
  let program ← program disk path
  Machine.load program settings

/-- The settings of a document. -/
def settings (disk : Disk) (path : String) : Except Error Settings := do
  let text ← disk.text path
  Settings.parse text

end Octet.Loader
