import Mathlib.Data.List.Basic

/- Allocated memory as a table of blocks: a pointer is the index of its block, a block has
   a size and is alive from its allocation to its release. A handle is never given out
   twice, so a pointer that is kept too long is still seen to be dead. -/

/-- A block of `size` entries. -/
structure Block where
  size : Nat
  live : Bool
  deriving DecidableEq, Repr

/-- The blocks handed out so far, in order. -/
structure Heap where
  blocks : List Block
  deriving DecidableEq, Repr

namespace Heap

/-- No block has been handed out. -/
def empty : Heap := ⟨[]⟩

/-- A new block of `n` entries, and its handle. -/
def alloc (h : Heap) (n : Nat) : Heap × Nat := (⟨h.blocks ++ [⟨n, true⟩]⟩, h.blocks.length)

/-- The end of the block `p`. -/
def free (h : Heap) (p : Nat) : Heap := ⟨h.blocks.modify p (fun b => { b with live := false })⟩

/-- The block `p` is alive. -/
def Live (h : Heap) (p : Nat) : Prop := (h.blocks[p]?.map Block.live) = some true

/-- The block `p` is alive and has `n` entries. -/
def Holds (h : Heap) (p n : Nat) : Prop := h.blocks[p]? = some ⟨n, true⟩

instance (h : Heap) (p : Nat) : Decidable (h.Live p) := inferInstanceAs (Decidable (_ = _))

/-- The entries of the block `p`, none when there is no such block. -/
def size (h : Heap) (p : Nat) : Nat := (h.blocks[p]?.map Block.size).getD 0

theorem alloc_holds (h : Heap) (n : Nat) : (h.alloc n).1.Holds (h.alloc n).2 n := by
  simp [alloc, Holds]

theorem Holds.live {h : Heap} {p n : Nat} (hp : h.Holds p n) : h.Live p := by
  rw [Holds] at hp
  rw [Live, hp]
  rfl

theorem Holds.size_eq {h : Heap} {p n : Nat} (hp : h.Holds p n) : h.size p = n := by
  rw [Holds] at hp
  rw [size, hp]
  rfl

/-- A block that has been released is dead. -/
theorem not_live_free (h : Heap) (p : Nat) : ¬ (h.free p).Live p := by
  rw [Live, free, List.getElem?_modify_eq]
  cases h.blocks[p]? <;> simp

end Heap
