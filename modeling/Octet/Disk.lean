import Octet.Error

/-!
# Files

A disk gives the bytes of a file, or says why it cannot. A directory tree that is given as a list of
its files and directories is a disk; paths start in its top directory.

* `Disk.text`: a file as text.
* `Tree.disk`: the disk of a directory tree.
-/

namespace Octet

/-- The bytes of each file that can be read. -/
abbrev Disk := String → Except FileFault ByteArray

/-- A file as text. -/
def Disk.text (disk : Disk) (path : String) : Except Error String :=
  match disk path with
  | .error fault => .error (.unreadable path fault)
  | .ok bytes =>
    match String.fromUTF8? bytes with
    | some text => .ok text
    | none => .error (.unreadable path .notText)

/-- What a directory tree has in a place. -/
inductive Node where
  | directory
  | file (bytes : ByteArray)

/-- Files and directories with their places, each the names from the top directory down. -/
structure Tree where
  nodes : List (List String × Node)

/-- A place that a path can lead to: in the tree, or outside of it, where no file is known. -/
inductive Place where
  | inside (names : List String)
  | outside
  deriving DecidableEq, Repr

namespace Tree

/-- What is in a place, put there last. -/
def node? (tree : Tree) : Place → Option Node
  | .outside => some .directory
  | .inside [] => some .directory
  | .inside names => (tree.nodes.reverse.find? fun entry => entry.1 == names).map (·.2)

/-- The place that a name leads to from a directory. -/
def enter (name : String) (place : Place) : Except FileFault Place :=
  if name == "" || name == "." then .ok place
  else
    match name == "..", place with
    | true, .inside (n :: ns) => .ok (.inside (n :: ns).dropLast)
    | true, _ => .ok .outside
    | false, .inside names => .ok (.inside (names ++ [name]))
    | false, .outside => .error .missing

/-- The place that some names lead to, each of them from a directory. -/
def walk (tree : Tree) (place : Place) : List String → Except FileFault Place
  | [] => .ok place
  | name :: names =>
    match tree.node? place with
    | none => .error .missing
    | some (.file _) => .error .notDirectory
    | some .directory => do
      let place ← enter name place
      walk tree place names

/-- The names of a path. -/
def names (path : String) : List String :=
  (path.toList.splitOn '/').map String.ofList

/-- The places in a tree that some names lead through, from a place on. -/
def trail (place : List String) : List String → List (List String)
  | [] => []
  | name :: names =>
    let next :=
      if name == "" || name == "." then place
      else if name == ".." then place.dropLast
      else place ++ [name]
    next :: trail next names

/-- The nodes that a path adds to a tree: the directories on its way, and what it leads to. -/
def nodesOf (path : String) (node : Node) : List (List String × Node) :=
  let places := trail [] (names path)
  places.dropLast.map (·, .directory) ++ [(places.getLastD [], node)]

/-- The tree of some paths, to which their files and directories are added in order. -/
def ofPaths (entries : List (String × Node)) : Tree :=
  ⟨entries.flatMap fun entry => nodesOf entry.1 entry.2⟩

/-- The disk of a directory tree. -/
def disk (tree : Tree) : Disk := fun path => do
  if path == "" then throw .missing
  let start := if path.toList.head? == some '/' then Place.outside else Place.inside []
  let place ← tree.walk start (names path)
  match tree.node? place with
  | none => throw .missing
  | some .directory => throw .isDirectory
  | some (.file bytes) => return bytes

end Tree
end Octet
