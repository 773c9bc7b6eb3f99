import WindowFilter.Scheduler.Inversion

/- Every task is in one list. Whatever the tasks call and whenever the interrupts come, a
   task main created is in the ready list of its priority, in a delayed list, or among
   the deleted ones, once and in one of these only, until the idle task cleans it up.

   `Filed` is the invariant: it also says that who waits for an event is blocked (or
   between the two halves of `vTaskPlaceOnEventList`) and that the idle task is ready. -/
namespace WindowFilter.Scheduler
open Steps

variable {τ ε : Type} {uxPriority : τ → Priority}

/-- The tasks in the lists that `xStateListItem` can be in. -/
def places (s : State τ ε uxPriority) : Multiset τ :=
  s.ready.tasks + (s.delayed.owners : Multiset τ) + (s.xTasksWaitingTermination : Multiset τ)

structure Filed (idle : τ) (s : State τ ε uxPriority) : Prop where
  once : (places s).Nodup
  counted : (places s).card = s.uxCurrentNumberOfTasks
  deleted : s.xTasksWaitingTermination.length = s.uxDeletedTasksWaitingCleanUp
  current : s.pxCurrentTCB ∈ places s
  waits : ∀ t l, s.events.pxContainer t = some l → t ∈ s.delayed.owners ∨ ∃ x, s.pc t = .placed x
  placed : ∀ t x, s.pc t = .placed x →
    t = s.pxCurrentTCB ∧ 0 < s.uxSchedulerSuspended ∧ s.ready.Ready t ∧ 0 < x ∧ t ≠ idle
  idle_ready : s.ready.Ready idle

theorem mem_places {s : State τ ε uxPriority} {t : τ} :
    t ∈ places s ↔ s.ready.Ready t ∨ t ∈ s.delayed.owners ∨ t ∈ s.xTasksWaitingTermination := by
  rw [places, Multiset.mem_add, Multiset.mem_add, ReadyLists.mem_tasks, Multiset.mem_coe, Multiset.mem_coe, or_assoc]

namespace Filed

variable {idle : τ} {s : State τ ε uxPriority}

theorem ready_nodup (h : Filed idle s) : s.ready.tasks.Nodup :=
  Multiset.nodup_of_le (le_trans (Multiset.le_add_right _ _) (Multiset.le_add_right _ _)) h.once

theorem owners_nodup (h : Filed idle s) : s.delayed.owners.Nodup :=
  Multiset.coe_nodup.mp
    (Multiset.nodup_of_le (le_trans (Multiset.le_add_left _ _) (Multiset.le_add_right _ _)) h.once)

/-- A ready task is not delayed. -/
theorem not_delayed (h : Filed idle s) {t : τ} (ht : s.ready.Ready t) : t ∉ s.delayed.owners := by
  intro howner
  have hnodup := Multiset.nodup_of_le (Multiset.le_add_right (s.ready.tasks + (s.delayed.owners : Multiset τ)) _) h.once
  exact Multiset.disjoint_left.mp (Multiset.nodup_add.mp hnodup).2.2 (ReadyLists.mem_tasks.mpr ht)
    (Multiset.mem_coe.mpr howner)

/-- Unless it is between the two halves of `vTaskPlaceOnEventList`, a ready task is in no
event list. -/
theorem free (h : Filed idle s) {t : τ} (ht : s.ready.Ready t) (hpc : ∀ x, s.pc t ≠ .placed x) :
    s.events.pxContainer t = none := by
  cases hc : s.events.pxContainer t with
  | none => rfl
  | some l =>
    obtain howner | ⟨x, hx⟩ := h.waits t l hc
    · exact absurd howner (h.not_delayed ht)
    · exact absurd hx (hpc x)

/-- Once the scheduler is resumed nobody is between the two halves. -/
theorem not_placed (h : Filed idle s) (hresumed : s.uxSchedulerSuspended = 0) (t : τ) (x : UInt32) :
    s.pc t ≠ .placed x := by
  intro hx
  have := (h.placed t x hx).2.1
  omega

/-- A waiting task is blocked once the scheduler is resumed. -/
theorem blocked (h : Filed idle s) (hpc : ∀ x, s.pc s.pxCurrentTCB ≠ .placed x) {t : τ} {l : EventList ε}
    (ht : s.events.pxContainer t = some l) : t ∈ s.delayed.owners := by
  refine (h.waits t l ht).resolve_right ?_
  rintro ⟨x, hx⟩
  have hcur := (h.placed t x hx).1
  subst hcur
  exact hpc x hx

/-- When the running task is not between the two halves, nobody is. -/
theorem nobody_placed (h : Filed idle s) (hpc : ∀ x, s.pc s.pxCurrentTCB ≠ .placed x) (t : τ) (x : UInt32) :
    s.pc t ≠ .placed x := by
  intro hx
  have hcur := (h.placed t x hx).1
  subst hcur
  exact hpc x hx

/-- Outside `vTaskPlaceOnEventList` the program counters do not matter. -/
theorem move (h : Filed idle s) (hplaced : ∀ t x, s.pc t ≠ .placed x) {pc : τ → Pc} (hpc : ∀ t x, pc t ≠ .placed x) :
    Filed idle { s with pc := pc } := by
  refine ⟨h.once, h.counted, h.deleted, h.current, ?_, fun t x hx => absurd hx (hpc t x), h.idle_ready⟩
  intro t l hl
  exact .inl ((h.waits t l hl).resolve_right (fun ⟨x, hx⟩ => hplaced t x hx))

/-- The tasks in `xPendingReadyList` are blocked. -/
theorem pending_blocked (h : Filed idle s) (hpc : ∀ t x, s.pc t ≠ .placed x) :
    ∀ t ∈ s.events.lists .xPendingReadyList, t ∈ s.delayed.owners := by
  intro t ht
  exact (h.waits t _ ((s.events.contained _ t).mp ht)).resolve_right (fun ⟨x, hx⟩ => hpc t x hx)

theorem count_pos (h : Filed idle s) : 0 < s.uxCurrentNumberOfTasks := by
  rw [← h.counted]
  exact Multiset.card_pos_iff_exists_mem.mpr ⟨_, h.current⟩

end Filed

/-! ## What the kernel's functions keep -/

variable {idle : τ} {s : State τ ε uxPriority}

/-- The idle task lets go of one deleted task. -/
theorem filed_cleanUp (h : Filed idle s) (hidle : s.pxCurrentTCB = idle) (hpos : 0 < s.uxDeletedTasksWaitingCleanUp) :
    Filed idle (prvCheckTasksWaitingTermination s) ∧ ∃ t, t ::ₘ places (prvCheckTasksWaitingTermination s) = places s := by
  obtain ⟨t, ts, hts⟩ := List.exists_cons_of_length_pos (h.deleted ▸ hpos)
  have hplaces : t ::ₘ places (prvCheckTasksWaitingTermination s) = places s := by
    rw [prvCheckTasksWaitingTermination, places, places, hts, List.tail_cons, ← Multiset.cons_coe, Multiset.add_cons]
  have honce : (t ::ₘ places (prvCheckTasksWaitingTermination s)).Nodup := hplaces ▸ h.once
  have hcounted : (t ::ₘ places (prvCheckTasksWaitingTermination s)).card = s.uxCurrentNumberOfTasks :=
    hplaces ▸ h.counted
  rw [Multiset.card_cons] at hcounted
  refine ⟨⟨(Multiset.nodup_cons.mp honce).2, ?_, ?_, ?_, h.waits, h.placed, h.idle_ready⟩, t, hplaces⟩
  · exact Nat.eq_sub_of_add_eq hcounted
  · have := h.deleted
    simp only [prvCheckTasksWaitingTermination, List.length_tail]
    omega
  · exact mem_places.mpr (.inl (hidle ▸ h.idle_ready))

/-- Who runs its own code is not between the two halves of `vTaskPlaceOnEventList`. -/
theorem At.not_placed {pc : Pc} (hat : At s pc) (hpc : ∀ x, pc ≠ .placed x) (x : UInt32) :
    s.pc s.pxCurrentTCB ≠ .placed x := by
  rw [hat.2]
  exact hpc x

variable [DecidableEq τ]

theorem update_not_placed {t : τ} {pcs : τ → Pc} {pc : Pc} (hpcs : ∀ u x, pcs u ≠ .placed x)
    (hpc : ∀ x, pc ≠ .placed x) (u : τ) (x : UInt32) : Function.update pcs t pc u ≠ .placed x := by
  by_cases hu : u = t
  · subst hu
    rw [Function.update_self]
    exact hpc x
  · rw [Function.update_of_ne hu]
    exact hpcs u x

theorem places_block (h : Filed idle s) (hready : s.ready.Ready s.pxCurrentTCB) (xTicksToWait : UInt32) :
    places (prvAddCurrentTaskToDelayedList xTicksToWait s) = places s := by
  have howners := Multiset.coe_eq_coe.mpr (DelayedLists.owners_add s.delayed s.pxCurrentTCB xTicksToWait)
  rw [prvAddCurrentTaskToDelayedList, places, places, howners, ← ReadyLists.tasks_remove h.ready_nodup hready,
    ← Multiset.cons_coe, Multiset.add_cons, Multiset.cons_add, Multiset.cons_add, Multiset.cons_add]

/-- The running task blocks. -/
theorem filed_block (h : Filed idle s) (hready : s.ready.Ready s.pxCurrentTCB) (hidle : s.pxCurrentTCB ≠ idle)
    (xTicksToWait : UInt32) {pc : τ → Pc} (hpc : ∀ t x, pc t ≠ .placed x)
    (hwaits : ∀ t l, s.events.pxContainer t = some l → t ∈ s.delayed.owners ∨ t = s.pxCurrentTCB) :
    Filed idle { prvAddCurrentTaskToDelayedList xTicksToWait s with pc := pc } := by
  have hplaces := places_block h hready xTicksToWait
  have hmem : ∀ t, t ∈ (s.delayed.prvAddCurrentTaskToDelayedList s.pxCurrentTCB xTicksToWait).owners ↔
      t = s.pxCurrentTCB ∨ t ∈ s.delayed.owners := by
    intro t
    rw [(DelayedLists.owners_add s.delayed s.pxCurrentTCB xTicksToWait).mem_iff, List.mem_cons]
  have honce : (places (prvAddCurrentTaskToDelayedList xTicksToWait s)).Nodup := hplaces ▸ h.once
  have hcounted : (places (prvAddCurrentTaskToDelayedList xTicksToWait s)).card = s.uxCurrentNumberOfTasks :=
    hplaces ▸ h.counted
  have hcurrent : s.pxCurrentTCB ∈ places (prvAddCurrentTaskToDelayedList xTicksToWait s) := hplaces ▸ h.current
  refine ⟨honce, hcounted, h.deleted, hcurrent, ?_, ?_, ?_⟩
  · intro t l hl
    exact .inl ((hmem t).mpr (hwaits t l hl).symm)
  · intro t x hx
    exact absurd hx (hpc t x)
  · exact (ReadyLists.ready_remove (ReadyLists.list_nodup h.ready_nodup _)).mpr ⟨hidle.symm, h.idle_ready⟩

/-- The task selected to run next. -/
theorem filed_switch (h : Filed idle s) {s' : State τ ε uxPriority} (hs : vTaskSwitchContext s = some s') :
    Filed idle s' ∧ places s' = places s := by
  obtain ⟨-, rfl⟩ | ⟨hresumed, t, r, hselect, hs'⟩ := vTaskSwitchContext_cases hs
  · exact ⟨⟨h.once, h.counted, h.deleted, h.current, h.waits, h.placed, h.idle_ready⟩, rfl⟩
  · have hready : r.Ready t := (ReadyLists.ready_select hselect).mpr (ReadyLists.select_spec hselect).1
    have hplaces : places s' = places s := by
      rw [hs', places, places, ReadyLists.tasks_select hselect]
    rw [hs'] at hplaces ⊢
    refine ⟨⟨hplaces ▸ h.once, hplaces ▸ h.counted, h.deleted, mem_places.mpr (.inl hready), h.waits, ?_,
      (ReadyLists.ready_select hselect).mpr h.idle_ready⟩, hplaces⟩
    intro u x hx
    exact absurd hx (h.not_placed hresumed u x)

variable [DecidableEq ε]

theorem places_tick (h : s.uxSchedulerSuspended = 0) : places (xTaskIncrementTick s).1 = places s := by
  have hperm := Multiset.coe_eq_coe.mpr (DelayedLists.owners_tick s.delayed)
  rw [xTaskIncrementTick_eq h, places, places, ReadyLists.tasks_addAll, ← hperm, ← Multiset.coe_add]
  abel

theorem filed_tick (h : Filed idle s) (hresumed : s.uxSchedulerSuspended = 0) :
    Filed idle (xTaskIncrementTick s).1 := by
  have hplaces := places_tick hresumed
  have hperm := DelayedLists.owners_tick s.delayed
  have hcurrent : s.pxCurrentTCB ∈ places (xTaskIncrementTick s).1 := hplaces ▸ h.current
  have honce : (places (xTaskIncrementTick s).1).Nodup := hplaces ▸ h.once
  have hcounted : (places (xTaskIncrementTick s).1).card = s.uxCurrentNumberOfTasks := hplaces ▸ h.counted
  rw [xTaskIncrementTick_eq hresumed] at hcurrent honce hcounted ⊢
  refine ⟨honce, hcounted, h.deleted, hcurrent, ?_, ?_, ?_⟩
  · intro t l hl
    simp only [EventLists.removeAll_container] at hl
    split at hl
    · cases hl
    · next hrung =>
      -- who is still in an event list has not been taken off the delayed one
      have howner := (h.waits t l hl).resolve_right (fun ⟨x, hx⟩ => h.not_placed hresumed t x hx)
      exact .inl ((List.mem_append.mp (hperm.mem_iff.mpr howner)).resolve_left hrung)
  · intro t x hx
    exact absurd hx (h.not_placed hresumed t x)
  · exact ReadyLists.ready_addAll.mpr (.inr h.idle_ready)

theorem places_wakeAll (h : Filed idle s) {ts : List τ} (hnodup : ts.Nodup)
    (hblocked : ∀ t ∈ ts, t ∈ s.delayed.owners) : places (wakeAll ts s) = places s := by
  have howners : ((ts ++ s.delayed.owners.filter (· ∉ ts) : List τ) : Multiset τ) = s.delayed.owners := by
    refine Multiset.coe_eq_coe.mpr ((List.perm_ext_iff_of_nodup ?_ h.owners_nodup).mpr ?_)
    · refine List.nodup_append.mpr ⟨hnodup, h.owners_nodup.filter _, ?_⟩
      intro t ht u hu htu
      have hnot := of_decide_eq_true (List.mem_filter.mp hu).2
      exact hnot (htu ▸ ht)
    · intro t
      by_cases ht : t ∈ ts
      · simp [ht, hblocked t ht]
      · simp [ht]
  rw [wakeAll, places, places, ReadyLists.tasks_addAll, DelayedLists.owners_removeAll, ← howners, ← Multiset.coe_add]
  abel

theorem filed_wakeAll (h : Filed idle s) (hpc : ∀ t x, s.pc t ≠ .placed x) {ts : List τ} (hnodup : ts.Nodup)
    (hblocked : ∀ t ∈ ts, t ∈ s.delayed.owners) : Filed idle (wakeAll ts s) := by
  have hplaces := places_wakeAll h hnodup hblocked
  refine ⟨hplaces ▸ h.once, hplaces ▸ h.counted, h.deleted, hplaces ▸ h.current, ?_, ?_, ?_⟩
  · intro t l hl
    simp only [wakeAll, EventLists.removeAll_container] at hl
    split at hl
    · cases hl
    · next hnot =>
      have howner := (h.waits t l hl).resolve_right (fun ⟨x, hx⟩ => hpc t x hx)
      refine .inl ?_
      rw [wakeAll, DelayedLists.owners_removeAll, List.mem_filter]
      exact ⟨howner, decide_eq_true hnot⟩
  · intro t x hx
    exact absurd hx (hpc t x)
  · exact ReadyLists.ready_addAll.mpr (.inr h.idle_ready)

theorem filed_hold (h : Filed idle s) {t : τ} {l : EventList ε} (ht : s.events.pxContainer t = some l) :
    Filed idle (holdPending t s) := by
  refine ⟨h.once, h.counted, h.deleted, h.current, ?_, h.placed, h.idle_ready⟩
  intro u l' hl'
  simp only [holdPending, EventLists.hold, EventLists.insertPending_container] at hl'
  split at hl'
  · next hu =>
    subst hu
    exact h.waits u l ht
  · next hu =>
    rw [EventLists.remove_container_of_ne _ hu] at hl'
    exact h.waits u l' hl'

theorem owners_released :
    (released s).delayed.owners = (wakeAll (s.events.lists .xPendingReadyList) s).delayed.owners := by
  simp only [released]
  split
  · rfl
  · exact DelayedLists.owners_reset _

theorem places_released (h : Filed idle s) (hpc : ∀ t x, s.pc t ≠ .placed x) : places (released s) = places s := by
  rw [← places_wakeAll h (s.events.once .xPendingReadyList) (h.pending_blocked hpc), places, places, owners_released]
  rfl

theorem filed_released (h : Filed idle s) (hpc : ∀ t x, s.pc t ≠ .placed x) : Filed idle (released s) := by
  have hplaces := places_released h hpc
  have hw := filed_wakeAll h hpc (s.events.once .xPendingReadyList) (h.pending_blocked hpc)
  refine ⟨hplaces ▸ h.once, hplaces ▸ h.counted, h.deleted, hplaces ▸ h.current, ?_, ?_, hw.idle_ready⟩
  · intro t l hl
    refine (hw.waits t l hl).imp ?_ id
    intro ht
    exact owners_released (s := s) ▸ ht
  · intro t x hx
    exact absurd hx (hpc t x)

/-- The loop over the pended ticks. -/
theorem filed_countPended (n : Nat) (h : Filed idle s) (hresumed : s.uxSchedulerSuspended = 0) :
    Filed idle (countPended n s) ∧ places (countPended n s) = places s := by
  refine countPended_inv (I := fun u => Filed idle u ∧ places u = places s) ?_ n hresumed ⟨h, rfl⟩
  rintro u hu ⟨hfiled, hplaces⟩
  have := filed_tick hfiled hu
  refine ⟨⟨this.once, this.counted, this.deleted, this.current, this.waits, this.placed, this.idle_ready⟩, ?_⟩
  exact (places_tick hu).trans hplaces

/-- The last `xTaskResumeAll`, or one inside another suspended section. -/
theorem filed_resume (h : Filed idle s) (hpc : ∀ t x, s.pc t ≠ .placed x) :
    Filed idle (xTaskResumeAll s).1 ∧ places (xTaskResumeAll s).1 = places s := by
  by_cases hlast : s.uxSchedulerSuspended ≤ 1
  · obtain ⟨hu, hplaces⟩ := filed_countPended s.xPendedTicks.toNat (filed_released h hpc) rfl
    rw [xTaskResumeAll_last h.count_pos hlast]
    refine ⟨⟨hu.once, hu.counted, hu.deleted, hu.current, hu.waits, hu.placed, hu.idle_ready⟩, ?_⟩
    exact hplaces.trans (places_released h hpc)
  · rw [xTaskResumeAll_nested (by omega)]
    exact ⟨⟨h.once, h.counted, h.deleted, h.current, h.waits, fun t x hx => absurd hx (hpc t x), h.idle_ready⟩, rfl⟩

theorem places_delete (h : Filed idle s) (hready : s.ready.Ready s.pxCurrentTCB) :
    places (vTaskDelete s) = places s := by
  rw [vTaskDelete, places, places, ← ReadyLists.tasks_remove h.ready_nodup hready, ← Multiset.coe_add,
    Multiset.coe_singleton, ← Multiset.singleton_add]
  abel

theorem filed_delete (h : Filed idle s) (hready : s.ready.Ready s.pxCurrentTCB) (hidle : s.pxCurrentTCB ≠ idle)
    (hplaced : ∀ t x, s.pc t ≠ .placed x) : Filed idle (vTaskDelete s) := by
  have hplaces := places_delete h hready
  refine ⟨hplaces ▸ h.once, hplaces ▸ h.counted, ?_, hplaces ▸ h.current, ?_, ?_, ?_⟩
  · simp only [vTaskDelete, List.length_append, List.length_singleton, h.deleted]
  · intro t l hl
    refine .inl ((h.waits t l ?_).resolve_right (fun ⟨x, hx⟩ => hplaced t x hx))
    by_cases ht : t = s.pxCurrentTCB
    · subst ht
      simp only [vTaskDelete, EventLists.remove_container] at hl
      cases hl
    · simpa only [vTaskDelete, EventLists.remove_container_of_ne _ ht] using hl
  · intro t x hx
    exact absurd hx (hplaced t x)
  · exact (ReadyLists.ready_remove (ReadyLists.list_nodup h.ready_nodup _)).mpr ⟨hidle.symm, h.idle_ready⟩

/-! ## Every step -/

/-- **A step keeps every task in one list**; only the idle task's clean-up lets one go. -/
theorem filed_step {s' : State τ ε uxPriority} {e : Event ε} (h : Filed idle s) (hs : Step idle s e s')
    (hready : e = .delete → s.ready.Ready s.pxCurrentTCB) :
    Filed idle s' ∧ ∃ gone : Multiset τ, gone + places s' = places s ∧ gone.card = if e = .cleanUp then 1 else 0 := by
  have hsame : ∀ {u : State τ ε uxPriority}, places u = places s →
      ∃ gone : Multiset τ, gone + places u = places s ∧ gone.card = 0 :=
    fun hu => ⟨0, (zero_add _).trans hu, rfl⟩
  have hrunning : ∀ x, Pc.running ≠ .placed x := by simp
  have hyielding : ∀ x, Pc.yielding ≠ .placed x := by simp
  cases hs with
  | tickCounted hresumed =>
    have := filed_tick h hresumed
    exact ⟨⟨this.once, this.counted, this.deleted, this.current, this.waits, this.placed, this.idle_ready⟩,
      hsame (places_tick hresumed)⟩
  | tickPended hsuspended =>
    exact ⟨⟨h.once, h.counted, h.deleted, h.current, h.waits, h.placed, h.idle_ready⟩, hsame rfl⟩
  | switchContext s' hpend hs' =>
    have hpended : Filed idle { s with pendSV := false } :=
      ⟨h.once, h.counted, h.deleted, h.current, h.waits, h.placed, h.idle_ready⟩
    obtain ⟨hfiled, hplaces⟩ := filed_switch hpended hs'
    exact ⟨hfiled, hsame hplaces⟩
  | wakeReady l t ts hl hresumed =>
    have ht : s.events.pxContainer t = some (.event l) := (s.events.contained _ t).mp (hl ▸ List.mem_cons_self)
    have hnobody := h.not_placed hresumed
    have hblocked : ∀ u ∈ [t], u ∈ s.delayed.owners := by
      intro u hu
      rw [List.mem_singleton.mp hu]
      exact (h.waits t _ ht).resolve_right (fun ⟨x, hx⟩ => hnobody t x hx)
    have := filed_wakeAll h hnobody (List.nodup_singleton t) hblocked
    exact ⟨⟨this.once, this.counted, this.deleted, this.current, this.waits, this.placed, this.idle_ready⟩,
      hsame (places_wakeAll h (List.nodup_singleton t) hblocked)⟩
  | wakeHeld l t ts hl hsuspended =>
    have := filed_hold h ((s.events.contained _ t).mp (hl ▸ List.mem_cons_self))
    exact ⟨⟨this.once, this.counted, this.deleted, this.current, this.waits, this.placed, this.idle_ready⟩, hsame rfl⟩
  | unlockHeld l t ts hl hsuspended =>
    have := filed_hold h ((s.events.contained _ t).mp (hl ▸ List.mem_cons_self))
    exact ⟨⟨this.once, this.counted, this.deleted, this.current, this.waits, this.placed, this.idle_ready⟩, hsame rfl⟩
  | suspend hat =>
    have hnobody := h.nobody_placed (hat.not_placed hrunning)
    exact ⟨⟨h.once, h.counted, h.deleted, h.current, h.waits, fun t x hx => absurd hx (hnobody t x), h.idle_ready⟩,
      hsame rfl⟩
  | resumeYielding hat hsuspended hyield =>
    have hnobody := h.nobody_placed (hat.not_placed hrunning)
    obtain ⟨hfiled, hplaces⟩ := filed_resume h hnobody
    have hnobody' : ∀ t x, (xTaskResumeAll s).1.pc t ≠ .placed x := by
      rw [(xTaskResumeAll_frame h.count_pos).2]
      exact hnobody
    exact ⟨hfiled.move hnobody' (update_not_placed hnobody' hyielding), hsame hplaces⟩
  | resume thenYield hat hsuspended hyield =>
    obtain ⟨hfiled, hplaces⟩ := filed_resume h (h.nobody_placed (hat.not_placed hrunning))
    exact ⟨hfiled, hsame hplaces⟩
  | delay xTicksToDelay hblock =>
    obtain ⟨hat, -, -, hcurrent, hidle, -⟩ := hblock
    have hnobody := h.nobody_placed (hat.not_placed hrunning)
    refine ⟨filed_block h hcurrent hidle xTicksToDelay hnobody ?_, hsame (places_block h hcurrent _)⟩
    intro t l hl
    exact .inl ((h.waits t l hl).resolve_right (fun ⟨x, hx⟩ => hnobody t x hx))
  | place l xTicksToWait hblock =>
    obtain ⟨hat, hsuspended, hpos, hcurrent, hidle, hfree⟩ := hblock
    have hnobody := h.nobody_placed (hat.not_placed hrunning)
    refine ⟨⟨h.once, h.counted, h.deleted, h.current, ?_, ?_, h.idle_ready⟩, hsame rfl⟩
    · intro t l' hl'
      simp only [setPc, EventLists.insert_container] at hl'
      split at hl'
      · next ht => exact .inr ⟨xTicksToWait, by rw [ht]; exact Function.update_self _ _ _⟩
      · exact .inl ((h.waits t l' hl').resolve_right (fun ⟨x, hx⟩ => hnobody t x hx))
    · intro t x hx
      by_cases ht : t = s.pxCurrentTCB
      · subst ht
        have hx : Pc.placed xTicksToWait = .placed x := (Function.update_self _ _ _).symm.trans hx
        cases hx
        exact ⟨rfl, hsuspended, hcurrent, hpos, hidle⟩
      · exact absurd ((Function.update_of_ne ht _ _).symm.trans hx) (hnobody t x)
  | delayPlaced xTicksToWait hpc hpend =>
    obtain ⟨-, -, hcurrent, -, hidle⟩ := h.placed _ _ hpc
    refine ⟨filed_block h hcurrent hidle xTicksToWait ?_ ?_, hsame (places_block h hcurrent _)⟩
    · intro t x hx
      by_cases ht : t = s.pxCurrentTCB
      · subst ht
        exact hrunning x ((Function.update_self _ _ _).symm.trans hx)
      · exact ht (h.placed t x ((Function.update_of_ne ht _ _).symm.trans hx)).1
    · intro t l hl
      exact (h.waits t l hl).imp id (fun ⟨x, hx⟩ => (h.placed t x hx).1)
  | yield hat =>
    have hnobody := h.nobody_placed (hat.elim (fun hat => hat.not_placed hrunning) (fun hat => hat.not_placed hyielding))
    have := h.move hnobody (update_not_placed (t := s.pxCurrentTCB) hnobody hrunning)
    exact ⟨⟨this.once, this.counted, this.deleted, this.current, this.waits, this.placed, this.idle_ready⟩, hsame rfl⟩
  | delete hat hresumed hidle =>
    have hnobody := h.not_placed hresumed
    have hcurrent := hready rfl
    have hdeleted := filed_delete h hcurrent hidle hnobody
    exact ⟨hdeleted.move hnobody (update_not_placed hnobody hyielding), hsame (places_delete h hcurrent)⟩
  | cleanUp hat hidle hpos =>
    obtain ⟨hfiled, t, ht⟩ := filed_cleanUp h hidle hpos
    exact ⟨hfiled, {t}, (Multiset.singleton_add t _).trans ht, Multiset.card_singleton t⟩

end WindowFilter.Scheduler
