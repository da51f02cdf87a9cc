import Octet.Store
import Octet.Value

/-!
# Views

A view is a window of one to eight bytes into a block. Reading a view gives the value that its bytes
denote now; writing through it changes the block for every view of the same bytes. Views of
overlapping ranges alias each other, and nothing is copied between them.

* `View.Inside`: the view lies inside its block.
* `View.overlaps`: two views share at least one byte.
-/

namespace Octet

/-- A window into a block. -/
structure View where
  handle : Handle
  offset : Nat
  width : Width
  deriving DecidableEq, Repr

namespace View

/-- The first offset after the view. -/
def stop (v : View) : Nat :=
  v.offset + v.width.bytes

/-- The view lies inside its block. -/
def Inside (s : Store) (v : View) : Prop :=
  v.stop ≤ (s.block v.handle).length

instance (s : Store) (v : View) : Decidable (v.Inside s) :=
  inferInstanceAs (Decidable (_ ≤ _))

/-- The view of `width` bytes at `offset` of a block. The width is judged before the range. -/
def make (s : Store) (h : Handle) (offset width : Nat) : Except Error View := do
  let w ← Width.ofNat width
  s.checkRange h offset width
  return ⟨h, offset, w⟩

/-- The value that the bytes of the view denote. -/
def read (s : Store) (v : View) : Value :=
  Value.ofNat (Bytes.toNat (s.range v.handle v.offset v.width.bytes)) v.width

/-- Replaces the bytes of the view by those of a value of its width. -/
def write (s : Store) (v : View) (x : Value) : Except Error Store :=
  if x.width = v.width then .ok (s.patch v.handle v.offset x.bytes)
  else .error (.widthMismatch v.width.bytes x.width.bytes)

/-- A view of a new block that holds exactly the bytes of a value. -/
def detached (s : Store) (x : Value) : View × Store :=
  let (h, s) := s.alloc x.bytes
  (⟨h, 0, x.width⟩, s)

/-- Consecutive views of the given widths, the first one at `offset`. -/
def tile (h : Handle) (offset : Nat) : List Width → List View
  | [] => []
  | w :: ws => ⟨h, offset, w⟩ :: tile h (offset + w.bytes) ws

/-- The view cut into consecutive views, lowest offset first. -/
def split (v : View) (sizes : List Nat) : Except Error (List View) :=
  (v.width.parts sizes).map (tile v.handle v.offset)

/-- Whether two views share a byte. -/
def overlaps (v w : View) : Bool :=
  v.handle == w.handle && decide (v.offset < w.stop) && decide (w.offset < v.stop)

theorem overlaps_comm (v w : View) : v.overlaps w = w.overlaps v := by
  simp only [overlaps, Bool.and_assoc, Bool.and_comm (decide (v.offset < w.stop)), BEq.comm]

end View
end Octet
