import WindowFilter.Lib.Fifo
import Mathlib.Data.Nat.ModEq
import Mathlib.Logic.Function.Iterate
import Mathlib.Data.List.Range

/- The kernel queue (`Source/queue.c`): a ring buffer with two cursors, a count,
   two event lists and two lock counts. The two cursor facts every operation keeps
   are fields of `Queue_t`, so a queue with a stray cursor cannot be built.

   * `sendToBack_contents`, `takeFront_contents`: seen through `contents`, the
     oldest item first, a send appends and a receive takes the head.
   * `toFifo` with `toFifo_send` and `toFifo_receive`: the ring is the bounded
     FIFO the tasks are modelled over. -/
namespace WindowFilter.Kernel

/-- `queueUNLOCKED` -/
def queueUNLOCKED : Int := -1

/-- `queueLOCKED_UNMODIFIED` -/
def queueLOCKED_UNMODIFIED : Int := 0

/-- The next cell of the storage area, from `pcTail` back to `pcHead`. -/
def advance {n : Nat} (p : Fin n) : Fin n :=
  if h : p.val + 1 < n then ⟨p.val + 1, h⟩ else ⟨0, Nat.zero_lt_of_lt p.isLt⟩

theorem advance_val {n : Nat} (p : Fin n) : (advance p).val = (p.val + 1) % n := by
  have := p.isLt
  unfold advance
  split
  · next h => exact (Nat.mod_eq_of_lt h).symm
  · next h => rw [show p.val + 1 = n by omega, Nat.mod_self]

theorem advance_iterate_val {n : Nat} (p : Fin n) (k : Nat) :
    (advance^[k] p).val = (p.val + k) % n := by
  induction k with
  | zero => exact (Nat.mod_eq_of_lt p.isLt).symm
  | succ k ih => rw [Function.iterate_succ_apply', advance_val, ih, Nat.mod_add_mod, Nat.add_assoc]

/-- Fewer than `n` steps apart, two cells differ. -/
theorem advance_iterate_ne {n : Nat} (p : Fin n) {i j : Nat} (hij : i < j) (hj : j < i + n) :
    advance^[i] p ≠ advance^[j] p := by
  intro h
  have hval : (p.val + i) % n = (p.val + j) % n := by
    rw [← advance_iterate_val, ← advance_iterate_val, h]
  have hmod : i ≡ j [MOD n] := Nat.ModEq.add_left_cancel' p.val hval
  have hdvd : n ∣ j - i := (Nat.modEq_iff_dvd' (Nat.le_of_lt hij)).mp hmod
  have := Nat.le_of_dvd (by omega) hdvd
  omega

/-- `Queue_t` for `uxLength` items of type `α`, with the tasks waiting on it. The
storage area is indexed in items, so `pcHead` is 0 and `pcTail` is `uxLength`. -/
structure Queue_t (α τ : Type) (uxLength : Nat) where
  storage : Vector α uxLength
  pcWriteTo : Fin uxLength
  pcReadFrom : Fin uxLength
  uxMessagesWaiting : Nat
  xTasksWaitingToSend : List τ
  xTasksWaitingToReceive : List τ
  cRxLock : Int
  cTxLock : Int
  waiting_le : uxMessagesWaiting ≤ uxLength
  write_after : pcWriteTo = advance^[uxMessagesWaiting + 1] pcReadFrom

namespace Queue_t

variable {α τ : Type} {n : Nat}

/-- `xQueueGenericReset` on a new queue of `n + 1` items. -/
def create (n : Nat) (junk : α) : Queue_t α τ (n + 1) where
  storage := Vector.replicate (n + 1) junk
  pcWriteTo := 0
  pcReadFrom := Fin.last n
  uxMessagesWaiting := 0
  xTasksWaitingToSend := []
  xTasksWaitingToReceive := []
  cRxLock := queueUNLOCKED
  cTxLock := queueUNLOCKED
  waiting_le := Nat.zero_le _
  write_after := by
    apply Fin.ext
    rw [advance_iterate_val]
    simp

/-- The items of the queue, oldest first. -/
def contents (q : Queue_t α τ n) : List α :=
  (List.range q.uxMessagesWaiting).map (fun i => q.storage[advance^[i + 1] q.pcReadFrom])

/-- `prvCopyDataToQueue( pxQueue, pvItemToQueue, queueSEND_TO_BACK )`, called where
the queue has room. -/
def prvCopyDataToQueue (q : Queue_t α τ n) (x : α) (h : q.uxMessagesWaiting < n) : Queue_t α τ n :=
  { q with
    storage := q.storage.set q.pcWriteTo x
    pcWriteTo := advance q.pcWriteTo
    uxMessagesWaiting := q.uxMessagesWaiting + 1
    waiting_le := h
    write_after := by rw [q.write_after, ← Function.iterate_succ_apply' advance] }

/-- `prvCopyDataFromQueue`: the item, and `pcReadFrom` after it. -/
def prvCopyDataFromQueue (q : Queue_t α τ n) : α × Fin n :=
  (q.storage[advance q.pcReadFrom], advance q.pcReadFrom)

/-- The receive of one item inside `xQueueReceive`'s critical section, called where
the queue is not empty. -/
def takeFront (q : Queue_t α τ n) (h : 0 < q.uxMessagesWaiting) : α × Queue_t α τ n :=
  (q.prvCopyDataFromQueue.1, { q with
    pcReadFrom := q.prvCopyDataFromQueue.2
    uxMessagesWaiting := q.uxMessagesWaiting - 1
    waiting_le := Nat.le_trans (Nat.sub_le _ 1) q.waiting_le
    write_after := by
      rw [q.write_after, Nat.sub_add_cancel h, Function.iterate_succ_apply]; rfl })

/-- `prvIsQueueEmpty` -/
def prvIsQueueEmpty (q : Queue_t α τ n) : Bool := q.uxMessagesWaiting == 0

/-- `prvIsQueueFull` -/
def prvIsQueueFull (q : Queue_t α τ n) : Bool := q.uxMessagesWaiting == n

/-- `prvLockQueue` -/
def prvLockQueue (q : Queue_t α τ n) : Queue_t α τ n :=
  { q with
    cRxLock := if q.cRxLock = queueUNLOCKED then queueLOCKED_UNMODIFIED else q.cRxLock
    cTxLock := if q.cTxLock = queueUNLOCKED then queueLOCKED_UNMODIFIED else q.cTxLock }

/-! ## The ring is a list -/

theorem contents_length (q : Queue_t α τ n) : q.contents.length = q.uxMessagesWaiting := by
  simp [contents]

/-- A send puts the item after everything in the queue. -/
theorem sendToBack_contents (q : Queue_t α τ n) (x : α) (h : q.uxMessagesWaiting < n) :
    (q.prvCopyDataToQueue x h).contents = q.contents ++ [x] := by
  simp only [contents, prvCopyDataToQueue, List.range_succ, List.map_append, List.map_cons, List.map_nil]
  congr 1
  · apply List.map_congr_left
    intro i hi
    have hi := List.mem_range.mp hi
    -- the cell written is not one of the cells in use
    have hne : q.pcWriteTo ≠ advance^[i + 1] q.pcReadFrom := by
      rw [q.write_after]
      exact (advance_iterate_ne q.pcReadFrom (by omega) (by omega)).symm
    exact Vector.getElem_set_ne _ _ (fun e => hne (Fin.ext e))
  · have hlast : (q.storage.set q.pcWriteTo x)[q.pcWriteTo] = x := Vector.getElem_set_self _
    have hcell := congrArg (fun p : Fin n => (q.storage.set q.pcWriteTo x)[p]) q.write_after
    exact congrArg (fun y => [y]) (hcell.symm.trans hlast)

/-- A receive takes the oldest item and leaves the others. -/
theorem takeFront_contents (q : Queue_t α τ n) (h : 0 < q.uxMessagesWaiting) :
    q.contents = (q.takeFront h).1 :: (q.takeFront h).2.contents := by
  obtain ⟨m, hm⟩ : ∃ m, q.uxMessagesWaiting = m + 1 := ⟨q.uxMessagesWaiting - 1, by omega⟩
  simp only [contents, takeFront, prvCopyDataFromQueue, hm, Nat.add_sub_cancel, List.range_succ_eq_map,
    List.map_cons, List.map_map, Function.comp_def, Function.iterate_succ_apply, Function.iterate_zero, id_eq,
    Nat.succ_eq_add_one]

/-- The queue as the FIFO its users see. -/
def toFifo (q : Queue_t α τ n) : Fifo α n := ⟨q.contents, by rw [contents_length]; exact q.waiting_le⟩

@[simp] theorem toFifo_items (q : Queue_t α τ n) : q.toFifo.items = q.contents := rfl

theorem toFifo_send (q : Queue_t α τ n) (x : α) (h : q.uxMessagesWaiting < n) :
    q.toFifo.send x = some (q.prvCopyDataToQueue x h).toFifo := by
  rw [Fifo.send_eq_some, toFifo_items, toFifo_items, contents_length]
  exact ⟨h, sendToBack_contents q x h⟩

theorem toFifo_send_full (q : Queue_t α τ n) (x : α) (h : ¬ q.uxMessagesWaiting < n) :
    q.toFifo.send x = none := by
  rw [Fifo.send_eq_none, toFifo_items, contents_length]
  have := q.waiting_le
  omega

theorem toFifo_receive (q : Queue_t α τ n) (h : 0 < q.uxMessagesWaiting) :
    q.toFifo.receive = some ((q.takeFront h).1, (q.takeFront h).2.toFifo) := by
  rw [Fifo.receive_eq_some]
  exact takeFront_contents q h

end Queue_t

end WindowFilter.Kernel
