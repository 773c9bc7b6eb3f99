import Mathlib
import WindowFilter.Lib.Sorted
import WindowFilter.Scheduler.Ready

/- The lists a task's `xEventListItem` can be in (`Source/tasks.c`): those of the queues'
   events, and the one of the tasks woken while the scheduler is suspended. The item knows
   which list it is in; that it is there, once, and in no other is carried by the type. -/
namespace WindowFilter.Scheduler

inductive EventList (ε : Type) where
  | event (l : ε)
  | xPendingReadyList
  deriving DecidableEq, Repr

/-- The lists, each first to last, and `pxContainer` of every task's item. -/
structure EventLists (τ ε : Type) where
  lists : EventList ε → List τ
  pxContainer : τ → Option (EventList ε)
  contained : ∀ l t, t ∈ lists l ↔ pxContainer t = some l
  once : ∀ l, (lists l).Nodup

namespace EventLists

variable {τ ε : Type}

def empty : EventLists τ ε where
  lists := fun _ => []
  pxContainer := fun _ => none
  contained := by simp
  once := by simp

variable [DecidableEq τ] [DecidableEq ε]

/-- The item of `t`, in no list so far, becomes one of the list `l`, which is then `ts`. -/
def putIn (e : EventLists τ ε) (t : τ) (l : EventList ε) (ts : List τ) (h : e.pxContainer t = none)
    (hts : ts.Perm (t :: e.lists l)) : EventLists τ ε where
  lists := Function.update e.lists l ts
  pxContainer := Function.update e.pxContainer t (some l)
  contained := by
    intro l' u
    by_cases hl : l' = l
    · subst hl
      rw [Function.update_self, hts.mem_iff, List.mem_cons, e.contained]
      by_cases hu : u = t
      · simp [hu]
      · simp [hu]
    · rw [Function.update_of_ne hl, e.contained]
      by_cases hu : u = t
      · subst hu
        rw [Function.update_self, h]
        simp [Ne.symm hl]
      · rw [Function.update_of_ne hu]
  once := by
    intro l'
    by_cases hl : l' = l
    · subst hl
      have hnot : t ∉ e.lists l' := by
        rw [e.contained, h]
        simp
      rw [Function.update_self, hts.nodup_iff, List.nodup_cons]
      exact ⟨hnot, e.once l'⟩
    · rw [Function.update_of_ne hl]
      exact e.once l'

/-- `vListInsert` on an event list: by priority, the highest first. -/
def insert (uxPriority : τ → Priority) (e : EventLists τ ε) (t : τ) (l : ε) (h : e.pxContainer t = none) :
    EventLists τ ε :=
  e.putIn t (.event l)
    (Sorted.insert (fun u => configMAX_PRIORITIES - (uxPriority u).val) t (e.lists (.event l))) h
    (Sorted.insert_perm t _)

/-- `listINSERT_END( &( xPendingReadyList ), .. )` -/
def insertPending (e : EventLists τ ε) (t : τ) (h : e.pxContainer t = none) : EventLists τ ε :=
  e.putIn t .xPendingReadyList (e.lists .xPendingReadyList ++ [t]) h (List.perm_append_singleton t _)

/-- `listREMOVE_ITEM( &( pxTCB->xEventListItem ) )`, where the item is in a list. -/
def remove (e : EventLists τ ε) (t : τ) : EventLists τ ε where
  lists := fun l => if e.pxContainer t = some l then (e.lists l).erase t else e.lists l
  pxContainer := Function.update e.pxContainer t none
  contained := by
    intro l u
    by_cases hu : u = t
    · subst hu
      rw [Function.update_self]
      split
      · simp [(e.once l).mem_erase_iff]
      · next hl => simp [e.contained, hl]
    · rw [Function.update_of_ne hu]
      split
      · rw [List.mem_erase_of_ne hu, e.contained]
      · exact e.contained l u
  once := by
    intro l
    split
    · exact (e.once l).erase t
    · exact e.once l

@[simp] theorem remove_container (e : EventLists τ ε) (t : τ) : (e.remove t).pxContainer t = none :=
  Function.update_self _ _ _

theorem remove_container_of_ne {t u : τ} (e : EventLists τ ε) (h : u ≠ t) :
    (e.remove t).pxContainer u = e.pxContainer u :=
  Function.update_of_ne h _ _

theorem putIn_lists {e : EventLists τ ε} {t : τ} {l : EventList ε} {ts : List τ} {h : e.pxContainer t = none}
    {hts : ts.Perm (t :: e.lists l)} : (e.putIn t l ts h hts).lists = Function.update e.lists l ts := rfl

theorem insert_container (uxPriority : τ → Priority) {e : EventLists τ ε} {t : τ} {l : ε} {h : e.pxContainer t = none}
    (u : τ) : (e.insert uxPriority t l h).pxContainer u = if u = t then some (.event l) else e.pxContainer u :=
  Function.update_apply _ _ _ _

/-- An item that leaves its list for `xPendingReadyList`. -/
def hold (e : EventLists τ ε) (t : τ) : EventLists τ ε := (e.remove t).insertPending t (e.remove_container t)

theorem insertPending_container {e : EventLists τ ε} {t : τ} {h : e.pxContainer t = none} (u : τ) :
    (e.insertPending t h).pxContainer u = if u = t then some .xPendingReadyList else e.pxContainer u :=
  Function.update_apply _ _ _ _

theorem lists_remove (e : EventLists τ ε) (t : τ) (l : EventList ε) : (e.remove t).lists l = (e.lists l).erase t := by
  show (if e.pxContainer t = some l then (e.lists l).erase t else e.lists l) = _
  split
  · rfl
  · next hl => rw [List.erase_of_not_mem (fun ht => hl ((e.contained l t).mp ht))]

theorem lists_insert (uxPriority : τ → Priority) {e : EventLists τ ε} {t : τ} {l : ε} {h : e.pxContainer t = none}
    (k : EventList ε) : (e.insert uxPriority t l h).lists k =
      if k = .event l then Sorted.insert (fun u => configMAX_PRIORITIES - (uxPriority u).val) t (e.lists k)
      else e.lists k := by
  rw [insert, putIn_lists, Function.update_apply]
  split
  · next hk => rw [hk]
  · rfl

theorem lists_insertPending {e : EventLists τ ε} {t : τ} {h : e.pxContainer t = none} (l : ε) :
    (e.insertPending t h).lists (.event l) = e.lists (.event l) := by
  rw [insertPending, putIn_lists, Function.update_of_ne (by simp)]

/-- Several tasks taken out, one after the other. -/
def removeAll (e : EventLists τ ε) (ts : List τ) : EventLists τ ε := ts.foldl (fun e t => e.remove t) e

theorem removeAll_cons (e : EventLists τ ε) (t : τ) (ts : List τ) :
    e.removeAll (t :: ts) = (e.remove t).removeAll ts := rfl

theorem removeAll_container (e : EventLists τ ε) (ts : List τ) (u : τ) :
    (e.removeAll ts).pxContainer u = if u ∈ ts then none else e.pxContainer u := by
  induction ts generalizing e with
  | nil => rfl
  | cons t ts ih =>
    rw [removeAll_cons, ih]
    by_cases hu : u = t
    · subst hu
      simp
    · rw [remove_container_of_ne e hu]
      simp [hu]

theorem lists_removeAll (e : EventLists τ ε) (ts : List τ) (l : EventList ε) :
    (e.removeAll ts).lists l = (e.lists l).diff ts := by
  induction ts generalizing e with
  | nil => rfl
  | cons t ts ih => rw [removeAll_cons, ih, lists_remove, List.diff_cons]

end EventLists

end WindowFilter.Scheduler
