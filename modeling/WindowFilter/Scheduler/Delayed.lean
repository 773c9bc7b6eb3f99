import WindowFilter.Lib.Alarm
import WindowFilter.Lists.Model

/- The tick count and the lists of delayed tasks (`Source/tasks.c`). Ticks are 32 bits
   and wrap; a task whose wake time lies behind the wrap waits in a second list, and the
   two lists change places when the count wraps.

   The lists are an alarm clock over unbounded time (`Refines`): a task delayed for `d`
   ticks is set an alarm `d` ticks ahead (`refines_add`), and `xTaskIncrementTick` takes
   off exactly the tasks whose alarms ring (`refines_tick`). -/
namespace WindowFilter.Scheduler
open WindowFilter.Lists (portMAX_DELAY)

/-- A task in a list ordered by `xItemValue`. -/
structure ListItem_t (τ : Type) where
  xItemValue : UInt32
  pvOwner : τ
  deriving DecidableEq, Repr

/-- `vListInsert`: behind the items whose value is no greater. -/
def vListInsert {τ : Type} (e : ListItem_t τ) (es : List (ListItem_t τ)) : List (ListItem_t τ) :=
  Sorted.insert (fun e => e.xItemValue.toNat) e es

structure DelayedLists (τ : Type) where
  xTickCount : UInt32
  pxDelayedTaskList : List (ListItem_t τ)
  pxOverflowDelayedTaskList : List (ListItem_t τ)
  xNextTaskUnblockTime : UInt32
  xNumOfOverflows : UInt32
  deriving DecidableEq, Repr

namespace DelayedLists

variable {τ : Type}

/-- As `prvInitialiseTaskLists` and `vTaskStartScheduler` leave them. -/
def start : DelayedLists τ := ⟨0, [], [], portMAX_DELAY, 0⟩

/-- `prvAddCurrentTaskToDelayedList` for the task `t`, once it is out of the ready list. -/
def prvAddCurrentTaskToDelayedList (t : τ) (xTicksToWait : UInt32) (d : DelayedLists τ) : DelayedLists τ :=
  let xTimeToWake := d.xTickCount + xTicksToWait
  if xTimeToWake < d.xTickCount then
    { d with pxOverflowDelayedTaskList := vListInsert ⟨xTimeToWake, t⟩ d.pxOverflowDelayedTaskList }
  else
    { d with pxDelayedTaskList := vListInsert ⟨xTimeToWake, t⟩ d.pxDelayedTaskList,
             xNextTaskUnblockTime :=
               if xTimeToWake < d.xNextTaskUnblockTime then xTimeToWake else d.xNextTaskUnblockTime }

/-- `listREMOVE_ITEM( &( pxTCB->xStateListItem ) )` of a delayed task. -/
def remove [DecidableEq τ] (t : τ) (d : DelayedLists τ) : DelayedLists τ :=
  { d with pxDelayedTaskList := d.pxDelayedTaskList.filter (·.pvOwner ≠ t),
           pxOverflowDelayedTaskList := d.pxOverflowDelayedTaskList.filter (·.pvOwner ≠ t) }

def prvResetNextTaskUnblockTime (d : DelayedLists τ) : DelayedLists τ :=
  { d with xNextTaskUnblockTime :=
      match d.pxDelayedTaskList with
      | [] => portMAX_DELAY
      | e :: _ => e.xItemValue }

def taskSWITCH_DELAYED_LISTS (d : DelayedLists τ) : DelayedLists τ :=
  prvResetNextTaskUnblockTime
    { d with pxDelayedTaskList := d.pxOverflowDelayedTaskList,
             pxOverflowDelayedTaskList := d.pxDelayedTaskList,
             xNumOfOverflows := d.xNumOfOverflows + 1 }

/-- The loop of `xTaskIncrementTick` over `pxDelayedTaskList`: the tasks it takes off, the
list it leaves and `xNextTaskUnblockTime`. -/
def unblock (xConstTickCount : UInt32) : List (ListItem_t τ) → List τ × List (ListItem_t τ) × UInt32
  | [] => ([], [], portMAX_DELAY)
  | e :: es =>
    if xConstTickCount < e.xItemValue then ([], e :: es, e.xItemValue)
    else (e.pvOwner :: (unblock xConstTickCount es).1, (unblock xConstTickCount es).2)

/-- `xTaskIncrementTick` before its loop: the count goes up, and where it wraps the lists
change places. -/
def countTick (d : DelayedLists τ) : DelayedLists τ :=
  let d := { d with xTickCount := d.xTickCount + 1 }
  if d.xTickCount = 0 then taskSWITCH_DELAYED_LISTS d else d

/-- `xTaskIncrementTick` down to the end of its loop: the tasks taken off, and the lists. -/
def xTaskIncrementTick (d : DelayedLists τ) : List τ × DelayedLists τ :=
  let d := countTick d
  if d.xTickCount ≥ d.xNextTaskUnblockTime then
    let r := unblock d.xTickCount d.pxDelayedTaskList
    (r.1, { d with pxDelayedTaskList := r.2.1, xNextTaskUnblockTime := r.2.2 })
  else ([], d)

/-- The tasks in the two lists. -/
def owners (d : DelayedLists τ) : List τ :=
  d.pxDelayedTaskList.map ListItem_t.pvOwner ++ d.pxOverflowDelayedTaskList.map ListItem_t.pvOwner

/-- A delayed task is one more in the lists. -/
theorem owners_add (d : DelayedLists τ) (t : τ) (xTicksToWait : UInt32) :
    (d.prvAddCurrentTaskToDelayedList t xTicksToWait).owners.Perm (t :: d.owners) := by
  have hinsert : ∀ (v : UInt32) (es : List (ListItem_t τ)),
      ((vListInsert ⟨v, t⟩ es).map ListItem_t.pvOwner).Perm (t :: es.map ListItem_t.pvOwner) := by
    intro v es
    exact (Sorted.insert_perm _ es).map ListItem_t.pvOwner
  simp only [prvAddCurrentTaskToDelayedList]
  split
  · exact ((hinsert _ _).append_left _).trans List.perm_middle
  · exact (hinsert _ _).append_right _

theorem owners_remove [DecidableEq τ] (d : DelayedLists τ) (t : τ) : (d.remove t).owners = d.owners.filter (· ≠ t) := by
  rw [owners, owners, remove, List.filter_append, List.filter_map, List.filter_map]
  rfl

/-- Several tasks taken out, one after the other. -/
def removeAll [DecidableEq τ] (d : DelayedLists τ) (ts : List τ) : DelayedLists τ := ts.foldl (fun d t => d.remove t) d

theorem owners_removeAll [DecidableEq τ] (d : DelayedLists τ) (ts : List τ) :
    (d.removeAll ts).owners = d.owners.filter (· ∉ ts) := by
  induction ts generalizing d with
  | nil => simp [removeAll]
  | cons t ts ih =>
    show ((d.remove t).removeAll ts).owners = _
    rw [ih, owners_remove, List.filter_filter]
    apply List.filter_congr
    intro u _
    simp [Bool.and_comm]

theorem owners_reset (d : DelayedLists τ) : (prvResetNextTaskUnblockTime d).owners = d.owners := rfl

theorem owners_countTick (d : DelayedLists τ) : (countTick d).owners.Perm d.owners := by
  simp only [countTick]
  split
  · exact List.perm_append_comm
  · exact List.Perm.refl _

/-- The loop takes off a first part of the list. -/
theorem unblock_append (xConstTickCount : UInt32) (es : List (ListItem_t τ)) :
    (unblock xConstTickCount es).1 ++ (unblock xConstTickCount es).2.1.map ListItem_t.pvOwner =
      es.map ListItem_t.pvOwner := by
  induction es with
  | nil => rfl
  | cons e es ih =>
    rw [unblock]
    split
    · rfl
    · rw [List.cons_append, ih]
      rfl

/-- A tick takes tasks off the lists and puts none in. -/
theorem owners_tick (d : DelayedLists τ) :
    ((xTaskIncrementTick d).1 ++ (xTaskIncrementTick d).2.owners).Perm d.owners := by
  refine List.Perm.trans ?_ (owners_countTick d)
  rw [xTaskIncrementTick]
  split
  · have happend := unblock_append (countTick d).xTickCount (countTick d).pxDelayedTaskList
    simp only [owners]
    rw [← List.append_assoc, happend]
  · exact List.Perm.refl _

theorem removeAll_xTickCount [DecidableEq τ] (d : DelayedLists τ) (ts : List τ) :
    (d.removeAll ts).xTickCount = d.xTickCount := by
  induction ts generalizing d with
  | nil => rfl
  | cons t ts ih => exact ih (d.remove t)

theorem add_xTickCount (d : DelayedLists τ) (t : τ) (xTicksToWait : UInt32) :
    (d.prvAddCurrentTaskToDelayedList t xTicksToWait).xTickCount = d.xTickCount := by
  simp only [prvAddCurrentTaskToDelayedList]
  split
  · rfl
  · rfl

theorem tick_xTickCount (d : DelayedLists τ) : (xTaskIncrementTick d).2.xTickCount = d.xTickCount + 1 := by
  have hcount : (countTick d).xTickCount = d.xTickCount + 1 := by
    simp only [countTick]
    split
    · rfl
    · rfl
  rw [← hcount, xTaskIncrementTick]
  split
  · rfl
  · rfl

/-! ## The lists are an alarm clock -/

/-- The alarm an item of the current list (`epoch` wraps so far) stands for. -/
def alarmAt (epoch : Nat) (e : ListItem_t τ) : Nat × τ := (epoch * 2 ^ 32 + e.xItemValue.toNat, e.pvOwner)

/-- The lists show the time `now` and the alarms: the count and its wraps are the time,
the first list holds the alarms before the next wrap and the second those behind it. -/
structure Shows (d : DelayedLists τ) (now : Nat) (alarms : List (Nat × τ)) : Prop where
  tick : d.xTickCount.toNat = now % 2 ^ 32
  overflows : d.xNumOfOverflows.toNat = now / 2 ^ 32 % 2 ^ 32
  alarms : alarms = d.pxDelayedTaskList.map (alarmAt (now / 2 ^ 32)) ++
    d.pxOverflowDelayedTaskList.map (alarmAt (now / 2 ^ 32 + 1))
  next_le : ∀ e ∈ d.pxDelayedTaskList, d.xNextTaskUnblockTime ≤ e.xItemValue

/-- The lists show the alarm clock `c`. -/
def Refines (d : DelayedLists τ) (c : Alarm τ) : Prop := d.Shows c.now c.alarms

theorem refines_start : Refines (start : DelayedLists τ) (Alarm.silent 0) :=
  ⟨rfl, by simp [start, Alarm.silent], rfl, by simp [start]⟩

/-- The alarms before the wrap come before those behind it. -/
theorem alarmAt_lt {E : Nat} (e e' : ListItem_t τ) : (alarmAt E e).1 < (alarmAt (E + 1) e').1 := by
  have := e.xItemValue.toNat_lt
  simp only [alarmAt]
  omega

theorem map_vListInsert (E : Nat) (e : ListItem_t τ) (es : List (ListItem_t τ)) :
    (vListInsert e es).map (alarmAt E) = Sorted.insert Prod.fst (alarmAt E e) (es.map (alarmAt E)) := by
  apply Sorted.map_insert
  intro e' _
  simp only [alarmAt]
  omega

/-- A task in the first list is due only after the current tick. -/
theorem Refines.due {d : DelayedLists τ} {c : Alarm τ} (h : Refines d c) :
    ∀ e ∈ d.pxDelayedTaskList, d.xTickCount < e.xItemValue := by
  intro e he
  have hmem : alarmAt (c.now / 2 ^ 32) e ∈ c.alarms := by
    rw [h.alarms]
    exact List.mem_append_left _ (List.mem_map_of_mem he)
  have hahead := c.ahead _ hmem
  have htick := h.tick
  simp only [alarmAt] at hahead
  rw [UInt32.lt_iff_toNat_lt]
  omega

theorem map_snd_alarmAt (E : Nat) (es : List (ListItem_t τ)) :
    (es.map (alarmAt E)).map Prod.snd = es.map ListItem_t.pvOwner := by
  rw [List.map_map]
  exact List.map_congr_left (fun _ _ => rfl)

/-- The tasks in the lists are those whose alarms are set. -/
theorem Refines.mem_owners {d : DelayedLists τ} {c : Alarm τ} (h : Refines d c) {t : τ} :
    t ∈ d.owners ↔ ∃ due, (due, t) ∈ c.alarms := by
  have hsnd : c.alarms.map Prod.snd = d.owners := by
    rw [h.alarms, List.map_append, map_snd_alarmAt, map_snd_alarmAt, owners]
  rw [← hsnd, List.mem_map]
  exact ⟨fun ⟨a, ha, hat⟩ => ⟨a.1, hat ▸ ha⟩, fun ⟨due, ha⟩ => ⟨(due, t), ha, rfl⟩⟩

theorem refines_add {d : DelayedLists τ} {c : Alarm τ} (h : Refines d c) (t : τ) {xTicksToWait : UInt32}
    (hpos : 0 < xTicksToWait.toNat) :
    Refines (prvAddCurrentTaskToDelayedList t xTicksToWait d) (c.set t xTicksToWait.toNat hpos) := by
  have htick := h.tick
  have hwait := xTicksToWait.toNat_lt
  have hwake : (d.xTickCount + xTicksToWait).toNat = (d.xTickCount.toNat + xTicksToWait.toNat) % 2 ^ 32 :=
    UInt32.toNat_add _ _
  simp only [prvAddCurrentTaskToDelayedList]
  split
  · next hwrap =>
    rw [UInt32.lt_iff_toNat_lt] at hwrap
    refine ⟨htick, h.overflows, ?_, h.next_le⟩
    have halarm : (c.now + xTicksToWait.toNat, t) = alarmAt (c.now / 2 ^ 32 + 1) ⟨d.xTickCount + xTicksToWait, t⟩ := by
      simp only [alarmAt, Prod.mk.injEq, and_true]
      omega
    show Sorted.insert Prod.fst (c.now + xTicksToWait.toNat, t) c.alarms = _
    rw [halarm, h.alarms, map_vListInsert, Sorted.insert_append_right]
    · rfl
    · intro a ha
      obtain ⟨e, -, rfl⟩ := List.mem_map.mp ha
      exact le_of_lt (alarmAt_lt _ _)
  · next hwrap =>
    rw [UInt32.lt_iff_toNat_lt] at hwrap
    refine ⟨htick, h.overflows, ?_, ?_⟩
    · have halarm : (c.now + xTicksToWait.toNat, t) = alarmAt (c.now / 2 ^ 32) ⟨d.xTickCount + xTicksToWait, t⟩ := by
        simp only [alarmAt, Prod.mk.injEq, and_true]
        omega
      show Sorted.insert Prod.fst (c.now + xTicksToWait.toNat, t) c.alarms = _
      rw [halarm, h.alarms, map_vListInsert, Sorted.insert_append_left]
      · rfl
      · intro a ha
        obtain ⟨e, -, rfl⟩ := List.mem_map.mp ha
        exact alarmAt_lt _ _
    · intro e he
      have hnext : ∀ v : UInt32, (if v < d.xNextTaskUnblockTime then v else d.xNextTaskUnblockTime) ≤ v ∧
          (if v < d.xNextTaskUnblockTime then v else d.xNextTaskUnblockTime) ≤ d.xNextTaskUnblockTime := by
        intro v
        split
        · next hlt => exact ⟨UInt32.le_refl _, UInt32.le_of_lt hlt⟩
        · next hle => exact ⟨UInt32.not_lt.mp hle, UInt32.le_refl _⟩
      rcases Sorted.mem_insert.mp he with rfl | he
      · exact (hnext _).1
      · exact UInt32.le_trans (hnext _).2 (h.next_le e he)

theorem refines_remove [DecidableEq τ] {d : DelayedLists τ} {c : Alarm τ} (h : Refines d c) (t : τ) :
    Refines (d.remove t) (c.cancel t) := by
  refine ⟨h.tick, h.overflows, ?_, fun e he => h.next_le e (List.mem_filter.mp he).1⟩
  show c.alarms.filter _ = _
  rw [h.alarms, List.filter_append, List.filter_map, List.filter_map]
  rfl

theorem refines_removeAll [DecidableEq τ] {d : DelayedLists τ} {c : Alarm τ} (h : Refines d c) (ts : List τ) :
    Refines (d.removeAll ts) (c.cancelAll ts) := by
  induction ts generalizing d c with
  | nil => exact h
  | cons t ts ih => exact ih (refines_remove h t)

/-- The values of a sorted list are no lower than its first. -/
theorem head_le {e : ListItem_t τ} {es : List (ListItem_t τ)} {E : Nat}
    (h : Sorted.InOrder Prod.fst ((e :: es).map (alarmAt E))) : ∀ e' ∈ e :: es, e.xItemValue ≤ e'.xItemValue := by
  intro e' he'
  rw [List.map_cons] at h
  obtain ⟨hle, -⟩ := List.pairwise_cons.mp h
  rw [UInt32.le_iff_toNat_le]
  rcases List.mem_cons.mp he' with rfl | he'
  · exact Nat.le_refl _
  · have := hle _ (List.mem_map_of_mem he')
    simp only [alarmAt] at this
    omega

/-- The first list is sorted. -/
theorem Shows.inOrder {d : DelayedLists τ} {now : Nat} {alarms : List (Nat × τ)} (h : d.Shows now alarms)
    (hsorted : Sorted.InOrder Prod.fst alarms) :
    Sorted.InOrder Prod.fst (d.pxDelayedTaskList.map (alarmAt (now / 2 ^ 32))) := by
  rw [h.alarms] at hsorted
  exact (List.pairwise_append.mp hsorted).1

/-- After a reset no item of the first list is below `xNextTaskUnblockTime`. -/
theorem reset_le {d : DelayedLists τ} {E : Nat}
    (h : Sorted.InOrder Prod.fst (d.pxDelayedTaskList.map (alarmAt E))) :
    ∀ e ∈ d.pxDelayedTaskList, (prvResetNextTaskUnblockTime d).xNextTaskUnblockTime ≤ e.xItemValue := by
  intro e he
  rw [prvResetNextTaskUnblockTime]
  cases hd : d.pxDelayedTaskList with
  | nil =>
    rw [hd] at he
    exact absurd he List.not_mem_nil
  | cons e' es =>
    rw [hd] at h he
    exact head_le h e he

theorem refines_reset {d : DelayedLists τ} {c : Alarm τ} (h : Refines d c) :
    Refines (prvResetNextTaskUnblockTime d) c :=
  ⟨h.tick, h.overflows, h.alarms, reset_le (h.inOrder c.inOrder)⟩

/-! ### The tick -/

/-- The loop takes off what is due, and ends with `xNextTaskUnblockTime` reset for the rest. -/
theorem unblock_eq (d : DelayedLists τ) (xConstTickCount : UInt32) (es : List (ListItem_t τ)) :
    unblock xConstTickCount es =
      ((es.takeWhile (fun e => e.xItemValue ≤ xConstTickCount)).map ListItem_t.pvOwner,
        es.dropWhile (fun e => e.xItemValue ≤ xConstTickCount),
        (prvResetNextTaskUnblockTime { d with
          pxDelayedTaskList := es.dropWhile (fun e => e.xItemValue ≤ xConstTickCount) }).xNextTaskUnblockTime) := by
  induction es with
  | nil => rfl
  | cons e es ih =>
    rw [unblock]
    by_cases hlt : xConstTickCount < e.xItemValue
    · have hnot : ¬ e.xItemValue ≤ xConstTickCount := UInt32.not_le.mpr hlt
      rw [if_pos hlt, List.takeWhile_cons_of_neg (by simpa using hnot), List.dropWhile_cons_of_neg (by simpa using hnot)]
      rfl
    · have hle : e.xItemValue ≤ xConstTickCount := UInt32.not_lt.mp hlt
      rw [if_neg hlt, List.takeWhile_cons_of_pos (by simpa using hle), List.dropWhile_cons_of_pos (by simpa using hle),
        List.map_cons, ih]

/-- The count goes up: the same alarms, one tick later. -/
theorem shows_countTick {d : DelayedLists τ} {c : Alarm τ} (h : Refines d c) :
    (countTick d).Shows (c.now + 1) c.alarms := by
  have htick := h.tick
  have hoverflows := h.overflows
  have hcount : (d.xTickCount + 1).toNat = (d.xTickCount.toNat + 1) % 2 ^ 32 := UInt32.toNat_add _ _
  simp only [countTick]
  split
  · next hwrap =>
    have hzero : (d.xTickCount.toNat + 1) % 2 ^ 32 = 0 := by
      rw [← hcount, hwrap]
      rfl
    have hepoch : (c.now + 1) / 2 ^ 32 = c.now / 2 ^ 32 + 1 := by omega
    -- nothing can be due after the greatest count
    have hempty : d.pxDelayedTaskList = [] := by
      apply List.eq_nil_iff_forall_not_mem.mpr
      intro e he
      have hdue := h.due e he
      have := e.xItemValue.toNat_lt
      rw [UInt32.lt_iff_toNat_lt] at hdue
      omega
    have halarms : c.alarms = d.pxOverflowDelayedTaskList.map (alarmAt ((c.now + 1) / 2 ^ 32)) := by
      rw [h.alarms, hempty, hepoch]
      rfl
    refine ⟨?_, ?_, ?_, ?_⟩
    · show (d.xTickCount + 1).toNat = _
      omega
    · show (d.xNumOfOverflows + 1).toNat = _
      rw [UInt32.toNat_add, hoverflows, hepoch]
      exact Nat.mod_add_mod _ _ _
    · show c.alarms = d.pxOverflowDelayedTaskList.map _ ++ d.pxDelayedTaskList.map _
      rw [hempty, halarms]
      simp
    · have hsorted := c.inOrder
      rw [halarms] at hsorted
      exact reset_le hsorted
  · next hwrap =>
    have hnonzero : (d.xTickCount.toNat + 1) % 2 ^ 32 ≠ 0 := by
      intro hzero
      exact hwrap (UInt32.toNat_inj.mp (by rw [hcount, hzero]; rfl))
    have hepoch : (c.now + 1) / 2 ^ 32 = c.now / 2 ^ 32 := by omega
    refine ⟨?_, ?_, ?_, h.next_le⟩
    · show (d.xTickCount + 1).toNat = _
      omega
    · rw [hepoch]
      exact hoverflows
    · rw [hepoch]
      exact h.alarms

/-- What is due in the lists is what is due of the alarms. -/
theorem Shows.cut {d : DelayedLists τ} {now : Nat} {alarms : List (Nat × τ)} (h : d.Shows now alarms) :
    alarms.takeWhile (fun a => a.1 ≤ now) =
        (d.pxDelayedTaskList.takeWhile (fun e => e.xItemValue ≤ d.xTickCount)).map (alarmAt (now / 2 ^ 32)) ∧
      alarms.dropWhile (fun a => a.1 ≤ now) =
        (d.pxDelayedTaskList.dropWhile (fun e => e.xItemValue ≤ d.xTickCount)).map (alarmAt (now / 2 ^ 32)) ++
          d.pxOverflowDelayedTaskList.map (alarmAt (now / 2 ^ 32 + 1)) := by
  have htick := h.tick
  have hoverflow : ∀ a ∈ d.pxOverflowDelayedTaskList.map (alarmAt (now / 2 ^ 32 + 1)), now < a.1 := by
    intro a ha
    obtain ⟨e, -, rfl⟩ := List.mem_map.mp ha
    simp only [alarmAt]
    omega
  have hdue : ∀ e : ListItem_t τ, (alarmAt (now / 2 ^ 32) e).1 ≤ now ↔
      decide (e.xItemValue ≤ d.xTickCount) = true := by
    intro e
    rw [decide_eq_true_iff, UInt32.le_iff_toNat_le]
    simp only [alarmAt]
    omega
  rw [h.alarms, Sorted.takeWhile_append hoverflow, Sorted.dropWhile_append hoverflow, Sorted.takeWhile_map hdue,
    Sorted.dropWhile_map hdue]
  exact ⟨rfl, rfl⟩

/-- **A tick takes off the tasks whose alarms ring, in their order.** -/
theorem refines_tick {d : DelayedLists τ} {c : Alarm τ} (h : Refines d c) :
    (xTaskIncrementTick d).1 = c.rings ∧ Refines (xTaskIncrementTick d).2 c.tick := by
  have hshows := shows_countTick h
  obtain ⟨htake, hdrop⟩ := hshows.cut
  have hsorted := hshows.inOrder c.inOrder
  have hrings : c.rings = ((countTick d).pxDelayedTaskList.takeWhile
      (fun e => e.xItemValue ≤ (countTick d).xTickCount)).map ListItem_t.pvOwner := by
    rw [Alarm.rings, htake, map_snd_alarmAt]
  rw [xTaskIncrementTick, hrings]
  split
  · rw [unblock_eq (countTick d)]
    refine ⟨rfl, hshows.tick, hshows.overflows, hdrop, ?_⟩
    apply reset_le
    exact hsorted.sublist ((List.dropWhile_sublist _).map _)
  · next hearly =>
    -- nothing is due before `xNextTaskUnblockTime`
    have hnone : ∀ e ∈ (countTick d).pxDelayedTaskList, ¬ e.xItemValue ≤ (countTick d).xTickCount := by
      intro e he hle
      exact hearly (UInt32.le_trans (hshows.next_le e he) hle)
    have hcut : (countTick d).pxDelayedTaskList.takeWhile (fun e => e.xItemValue ≤ (countTick d).xTickCount) = [] ∧
        (countTick d).pxDelayedTaskList.dropWhile (fun e => e.xItemValue ≤ (countTick d).xTickCount) =
          (countTick d).pxDelayedTaskList := by
      cases hd : (countTick d).pxDelayedTaskList with
      | nil => exact ⟨rfl, rfl⟩
      | cons e es =>
        have he := hnone e (hd ▸ List.mem_cons_self)
        exact ⟨List.takeWhile_cons_of_neg (by simpa using he), List.dropWhile_cons_of_neg (by simpa using he)⟩
    rw [hcut.2] at hdrop
    rw [hcut.1]
    exact ⟨rfl, hshows.tick, hshows.overflows, hdrop, hshows.next_le⟩

end DelayedLists

end WindowFilter.Scheduler
