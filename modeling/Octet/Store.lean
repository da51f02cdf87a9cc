import Octet.Error

/-!
# The store

Memory is a store of byte blocks. A block is made once, keeps its length, and is named by a handle;
whoever holds the handle sees every change of the block. A range of a block is read or replaced only
if it lies inside the block.

* `Store.length_splice`: replacing a range inside a block keeps the block's length.
* `Store.block_alloc`: a new block holds the bytes that it was made with.
-/

namespace Octet

/-- The name of a block. -/
structure Handle where
  index : Nat
  deriving DecidableEq, Repr

/-- All byte blocks, oldest first. -/
structure Store where
  blocks : Array (List UInt8)
  deriving DecidableEq, Repr

namespace Store

/-- The store without blocks. -/
def empty : Store := ⟨#[]⟩

/-- The bytes of a block. -/
def block (s : Store) (h : Handle) : List UInt8 :=
  s.blocks.getD h.index []

/-- A new block with the given bytes. -/
def alloc (s : Store) (bytes : List UInt8) : Handle × Store :=
  (⟨s.blocks.size⟩, ⟨s.blocks.push bytes⟩)

/-- A new block of zeros. -/
def allocZero (s : Store) (size : Nat) : Handle × Store :=
  s.alloc (List.replicate size 0)

theorem block_alloc (s : Store) (bytes : List UInt8) :
    (s.alloc bytes).2.block (s.alloc bytes).1 = bytes := by
  simp [block, alloc]

/-- Whether `width` bytes from `offset` lie inside a block. -/
def checkRange (s : Store) (h : Handle) (offset width : Nat) : Except Error Unit :=
  if offset + width ≤ (s.block h).length then .ok ()
  else .error (.outOfBounds offset width (s.block h).length)

/-- The bytes of a block with `data` in place of those from `offset` on. -/
def splice (block : List UInt8) (offset : Nat) (data : List UInt8) : List UInt8 :=
  block.take offset ++ data ++ block.drop (offset + data.length)

theorem length_splice {block : List UInt8} {offset : Nat} {data : List UInt8}
    (h : offset + data.length ≤ block.length) : (splice block offset data).length = block.length := by
  simp only [splice, List.length_append, List.length_take, List.length_drop]
  omega

/-- The `width` bytes of a block from `offset` on, as many of them as there are. -/
def range (s : Store) (h : Handle) (offset width : Nat) : List UInt8 :=
  ((s.block h).drop offset).take width

/-- The store after `data` has been put into a block from `offset` on. -/
def patch (s : Store) (h : Handle) (offset : Nat) (data : List UInt8) : Store :=
  ⟨s.blocks.modify h.index fun block => splice block offset data⟩

/-- Reads `width` bytes of a block from `offset` on. -/
def read (s : Store) (h : Handle) (offset width : Nat) : Except Error (List UInt8) :=
  (s.checkRange h offset width).map fun _ => s.range h offset width

/-- Replaces the bytes of a block from `offset` on by `data`. -/
def write (s : Store) (h : Handle) (offset : Nat) (data : List UInt8) : Except Error Store :=
  (s.checkRange h offset data.length).map fun _ => s.patch h offset data

end Store
end Octet
