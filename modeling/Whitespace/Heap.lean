import Std.Data.TreeMap

/-!
# The heap

The heap has a word at every 64-bit address.  A cell that was never written holds zero; only cells
that were written are stored.
-/

namespace Whitespace

/-- Words by address. -/
structure Heap where
  cells : Std.TreeMap Int64 Int64 := {}

namespace Heap

/-- The word at an address. -/
def get (h : Heap) (address : Int64) : Int64 :=
  h.cells.getD address 0

/-- The heap with another word at an address. -/
def set (h : Heap) (address word : Int64) : Heap :=
  ⟨h.cells.insert address word⟩

/-- The cells that do not hold zero, by ascending address. -/
def nonzero (h : Heap) : List (Int64 × Int64) :=
  h.cells.toList.filter fun cell => cell.2 ≠ 0

@[simp] theorem get_empty (address : Int64) : ({} : Heap).get address = 0 := by
  simp [get]

theorem get_set (h : Heap) (address other word : Int64) :
    (h.set address word).get other = if address = other then word else h.get other := by
  simp [get, set, Std.TreeMap.getD_insert, Std.LawfulEqCmp.compare_eq_iff_eq]

end Heap

end Whitespace
