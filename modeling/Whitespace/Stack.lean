/-!
# The operand stack

A stack of 64-bit words.  `items` lists them from the bottom, so that the top is where an array
grows and every word is found at once; depths count from the top.
-/

namespace Whitespace

/-- A stack of words, the bottom first. -/
structure Stack where
  items : Array Int64 := #[]
  deriving DecidableEq, Repr

namespace Stack

/-- The stack whose top is the last of the words. -/
def ofList (words : List Int64) : Stack :=
  ⟨words.toArray⟩

/-- The words from the bottom to the top. -/
def toList (s : Stack) : List Int64 :=
  s.items.toList

/-- The number of words. -/
def size (s : Stack) : Nat :=
  s.items.size

def isEmpty (s : Stack) : Bool :=
  s.items.isEmpty

/-- The stack with one more word on top. -/
def push (s : Stack) (word : Int64) : Stack :=
  ⟨s.items.push word⟩

/-- The word at a depth, the top having depth zero. -/
def get? (s : Stack) (depth : Nat) : Option Int64 :=
  if depth < s.size then s.items[s.size - 1 - depth]? else none

/-- The top word. -/
def peek? (s : Stack) : Option Int64 :=
  s.items.back?

/-- The stack without its top word, if it has one. -/
def pop (s : Stack) : Stack :=
  ⟨s.items.pop⟩

/-- The top word and the stack below it. -/
def pop? (s : Stack) : Option (Int64 × Stack) :=
  s.peek?.map fun top => (top, s.pop)

/-- The stack without its topmost words. -/
def drop (s : Stack) (count : Nat) : Stack :=
  ⟨s.items.shrink (s.size - count)⟩

@[simp] theorem toList_push (s : Stack) (word : Int64) :
    (s.push word).toList = s.toList ++ [word] := by
  simp [push, toList]

@[simp] theorem length_toList (s : Stack) : s.toList.length = s.size := by
  simp [toList, size]

@[simp] theorem toList_ofList (words : List Int64) : (ofList words).toList = words := by
  simp [ofList, toList]

@[simp] theorem toList_drop (s : Stack) (count : Nat) :
    (s.drop count).toList = s.toList.take (s.size - count) := by
  simp [drop, toList]

@[simp] theorem peek?_push (s : Stack) (word : Int64) : (s.push word).peek? = some word := by
  simp [push, peek?]

@[simp] theorem pop_push (s : Stack) (word : Int64) : (s.push word).pop = s := by
  simp [push, pop]

@[simp] theorem pop?_push (s : Stack) (word : Int64) : (s.push word).pop? = some (word, s) := by
  simp [pop?]

theorem get?_eq (s : Stack) (depth : Nat) : s.get? depth = s.toList.reverse[depth]? := by
  rw [get?]
  split
  · next h =>
    rw [List.getElem?_reverse (by simpa using h)]
    simp [toList, size]
  · next h =>
    rw [List.getElem?_eq_none (by simpa using h)]

theorem pop?_eq_some_iff {s rest : Stack} {top : Int64} :
    s.pop? = some (top, rest) ↔ s = rest.push top := by
  constructor
  · rcases s with ⟨items⟩
    simp only [pop?, peek?, Option.map_eq_some_iff, Prod.mk.injEq]
    rintro ⟨_, back, rfl, rfl⟩
    obtain ⟨below, rfl⟩ := Array.back?_eq_some_iff.mp back
    simp [pop, push]
  · rintro rfl
    exact pop?_push rest top

end Stack

end Whitespace
