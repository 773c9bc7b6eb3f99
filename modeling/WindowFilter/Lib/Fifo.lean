import Mathlib.Data.List.Basic

/- A bounded FIFO: at most `cap` items, sent at the back and received at the
   front. The bound is a field, so an overfull queue cannot be built; a send to a
   full queue and a receive from an empty one have no result (the caller waits). -/

/-- A queue of at most `cap` items, oldest first. -/
structure Fifo (α : Type) (cap : Nat) where
  items : List α
  bounded : items.length ≤ cap
  deriving DecidableEq, Repr

namespace Fifo

variable {α : Type} {cap : Nat}

theorem ext_items {q q' : Fifo α cap} (h : q.items = q'.items) : q = q' := by
  cases q; cases q'; cases h; rfl

/-- The empty queue. -/
def empty : Fifo α cap := ⟨[], Nat.zero_le cap⟩

/-- Put `x` at the back, if there is room. -/
def send (q : Fifo α cap) (x : α) : Option (Fifo α cap) :=
  if h : q.items.length < cap then
    some ⟨q.items ++ [x], by rw [List.length_append, List.length_singleton]; exact h⟩
  else none

/-- Take the item at the front, if there is one. -/
def receive : Fifo α cap → Option (α × Fifo α cap)
  | ⟨[], _⟩ => none
  | ⟨x :: xs, h⟩ => some (x, ⟨xs, Nat.le_of_succ_le h⟩)

@[simp] theorem empty_items : (empty : Fifo α cap).items = [] := rfl

theorem send_eq_some {q q' : Fifo α cap} {x : α} :
    q.send x = some q' ↔ q.items.length < cap ∧ q'.items = q.items ++ [x] := by
  unfold send
  split
  · next h =>
    simp only [h, true_and, Option.some.injEq]
    exact ⟨fun e => e ▸ rfl, fun e => ext_items e.symm⟩
  · next h => simp [h]

theorem send_eq_none {q : Fifo α cap} {x : α} : q.send x = none ↔ q.items.length = cap := by
  have := q.bounded
  unfold send
  split
  · simp; omega
  · simp; omega

theorem receive_eq_some {q q' : Fifo α cap} {x : α} :
    q.receive = some (x, q') ↔ q.items = x :: q'.items := by
  rcases q with ⟨_ | ⟨y, ys⟩, h⟩
  · simp [receive]
  · simp only [receive, Option.some.injEq, Prod.mk.injEq, List.cons.injEq]
    exact ⟨fun ⟨e, e'⟩ => ⟨e, e' ▸ rfl⟩, fun ⟨e, e'⟩ => ⟨e, ext_items e'⟩⟩

theorem receive_eq_none {q : Fifo α cap} : q.receive = none ↔ q.items = [] := by
  rcases q with ⟨_ | ⟨y, ys⟩, h⟩ <;> simp [receive]

/-- A queue with room takes an item. -/
theorem send_of_room {q : Fifo α cap} {x : α} (h : q.items.length < cap) : ∃ q', q.send x = some q' := by
  apply Option.ne_none_iff_exists'.mp
  intro hnone
  have := send_eq_none.mp hnone
  omega

/-- A queue that is not empty gives one. -/
theorem receive_of_nonempty {q : Fifo α cap} (h : q.items ≠ []) : ∃ xq, q.receive = some xq := by
  apply Option.ne_none_iff_exists'.mp
  intro hnone
  exact h (receive_eq_none.mp hnone)

end Fifo
