import WindowFilter.Scheduler.Firmware
import WindowFilter.Scheduler.Filed

/- Who runs. Once the scheduler is resumed and no switch is pending, the running task is
   ready and no ready task has a higher priority, however the interrupts and the calls of
   the tasks have fallen (`highest_runs`); and the switch always finds a task
   (`switch_finds_task`).

   Three invariants carry this beside `Filed`. `Settled`: once the scheduler is resumed
   nothing is left over from the suspended section. `Stands`: a task that is not ready
   does not go on with its own code. `Prompt`: a task of higher priority that is ready has
   asked for a switch. -/
namespace WindowFilter.Scheduler
open Steps
open WindowFilter.Lists (portMAX_DELAY)

variable {τ ε : Type} {uxPriority : τ → Priority}

/-- No tick and no woken task waits for a scheduler that runs. -/
def Settled (s : State τ ε uxPriority) : Prop :=
  s.uxSchedulerSuspended = 0 → s.xPendedTicks = 0 ∧ ∀ t, s.events.pxContainer t ≠ some .xPendingReadyList

/-- A blocked task is about to be switched out. -/
def Stands (s : State τ ε uxPriority) : Prop :=
  s.uxSchedulerSuspended = 0 → s.pendSV = false → s.pc s.pxCurrentTCB ≠ .yielding → s.ready.Ready s.pxCurrentTCB

/-- `t` is ready, or will be when the scheduler is resumed. -/
def Woken (s : State τ ε uxPriority) (t : τ) : Prop :=
  s.ready.Ready t ∨ s.events.pxContainer t = some .xPendingReadyList

/-- A woken task of higher priority has asked for a switch, which a suspended scheduler
remembers in `xYieldPending`. -/
def Prompt (s : State τ ε uxPriority) : Prop :=
  ∀ t, Woken s t → uxPriority s.pxCurrentTCB < uxPriority t →
    s.pendSV = true ∨ (0 < s.uxSchedulerSuspended ∧ s.xYieldPending = true)

structure Good (idle : τ) (s : State τ ε uxPriority) : Prop where
  filed : Filed idle s
  settled : Settled s
  stands : Stands s
  prompt : Prompt s

/-! ## The start -/

/-- The tasks created before the scheduler starts: all ready, and the running one of the
highest priority. -/
theorem foldl_new (ts : List τ) (s : State τ ε uxPriority)
    (hhighest : ∀ u, s.ready.Ready u → uxPriority u ≤ uxPriority s.pxCurrentTCB)
    (hready : s.ready.Ready s.pxCurrentTCB) :
    ∃ t, ts.foldl prvAddNewTaskToReadyList s =
        { s with ready := s.ready.addAll ts, pxCurrentTCB := t,
                 uxCurrentNumberOfTasks := s.uxCurrentNumberOfTasks + ts.length } ∧
      (s.ready.addAll ts).Ready t ∧ ∀ u, (s.ready.addAll ts).Ready u → uxPriority u ≤ uxPriority t := by
  induction ts generalizing s with
  | nil => exact ⟨s.pxCurrentTCB, rfl, hready, hhighest⟩
  | cons t ts ih =>
    have hhighest' : ∀ u, (prvAddNewTaskToReadyList s t).ready.Ready u →
        uxPriority u ≤ uxPriority (prvAddNewTaskToReadyList s t).pxCurrentTCB := by
      intro u hu
      simp only [prvAddNewTaskToReadyList] at hu ⊢
      rcases ReadyLists.ready_add.mp hu with rfl | hu
      · split
        · exact le_refl _
        · next hlt => exact le_of_lt (not_le.mp hlt)
      · have := hhighest u hu
        split
        · next hle => exact le_trans this hle
        · exact this
    have hready' : (prvAddNewTaskToReadyList s t).ready.Ready (prvAddNewTaskToReadyList s t).pxCurrentTCB := by
      simp only [prvAddNewTaskToReadyList]
      split
      · exact ReadyLists.ready_add.mpr (.inl rfl)
      · exact ReadyLists.ready_add.mpr (.inr hready)
    obtain ⟨c, hc, hcready, hchighest⟩ := ih (prvAddNewTaskToReadyList s t) hhighest' hready'
    refine ⟨c, ?_, hcready, hchighest⟩
    rw [List.foldl_cons, hc, List.length_cons, Nat.add_comm ts.length, ← Nat.add_assoc]
    rfl

theorem start_eq (t : τ) (ts : List τ) :
    ∃ c, (start t ts : State τ ε uxPriority) =
        { (firstTask t : State τ ε uxPriority) with
          ready := (ReadyLists.empty.prvAddTaskToReadyList t).addAll ts
          pxCurrentTCB := c
          uxCurrentNumberOfTasks := 1 + ts.length } ∧
      ((ReadyLists.empty.prvAddTaskToReadyList t).addAll ts : ReadyLists τ uxPriority).Ready c ∧
      ∀ u, ((ReadyLists.empty.prvAddTaskToReadyList t).addAll ts : ReadyLists τ uxPriority).Ready u →
        uxPriority u ≤ uxPriority c := by
  refine foldl_new ts (firstTask t) ?_ (ReadyLists.ready_add.mpr (.inl rfl))
  intro u hu
  rcases ReadyLists.ready_add.mp hu with rfl | hu
  · exact le_refl _
  · rw [← ReadyLists.mem_tasks, ReadyLists.tasks_empty] at hu
    exact absurd hu (Multiset.notMem_zero u)

theorem good_start {idle t : τ} {ts : List τ} (hnodup : (t :: ts).Nodup) (hidle : idle ∈ t :: ts) :
    Good idle (start t ts : State τ ε uxPriority) ∧ places (start t ts : State τ ε uxPriority) = (t :: ts : List τ) := by
  obtain ⟨c, hstart, hready, hhighest⟩ := @start_eq τ ε uxPriority t ts
  have htasks : ((ReadyLists.empty.prvAddTaskToReadyList t).addAll ts : ReadyLists τ uxPriority).tasks =
      (t :: ts : List τ) := by
    rw [ReadyLists.tasks_addAll, ReadyLists.tasks_add, ReadyLists.tasks_empty, Multiset.add_cons, add_zero]
    rfl
  have hplaces : places (start t ts : State τ ε uxPriority) = (t :: ts : List τ) := by
    rw [hstart, places, htasks]
    simp [firstTask, DelayedLists.start, DelayedLists.owners]
  have hreadyIdle : ((ReadyLists.empty.prvAddTaskToReadyList t).addAll ts : ReadyLists τ uxPriority).Ready idle := by
    rw [← ReadyLists.mem_tasks, htasks]
    exact Multiset.mem_coe.mpr hidle
  refine ⟨?_, hplaces⟩
  rw [hstart] at hplaces ⊢
  refine ⟨⟨?_, ?_, rfl, mem_places.mpr (.inl hready), ?_, ?_, hreadyIdle⟩, ?_, fun _ _ _ => hready, ?_⟩
  · rw [hplaces]
    exact Multiset.coe_nodup.mpr hnodup
  · rw [hplaces, Multiset.coe_card, List.length_cons, Nat.add_comm]
  · intro u l hl
    cases hl
  · intro u x hx
    cases hx
  · intro _
    refine ⟨rfl, ?_⟩
    intro u hu
    cases hu
  · intro u hu hlt
    exact absurd hlt (not_lt.mpr (hhighest u (hu.resolve_right (fun hc => Option.some_ne_none _ hc.symm))))

variable [DecidableEq τ] [DecidableEq ε] {idle : τ} {s s' : State τ ε uxPriority} {e : Event ε}

/-! ## Nothing is left over -/

theorem released_free (s : State τ ε uxPriority) (t : τ) :
    (released s).events.pxContainer t ≠ some .xPendingReadyList := by
  intro h
  have hc : (released s).events.pxContainer t =
      if t ∈ s.events.lists .xPendingReadyList then none else s.events.pxContainer t :=
    EventLists.removeAll_container _ _ _
  rw [hc] at h
  split at h
  · cases h
  · next hnot => exact hnot ((s.events.contained _ t).mpr h)

theorem settled_resume (hcount : 0 < s.uxCurrentNumberOfTasks) : Settled (xTaskResumeAll s).1 := by
  intro hresumed
  by_cases hlast : s.uxSchedulerSuspended ≤ 1
  · rw [xTaskResumeAll_last hcount hlast]
    refine ⟨rfl, ?_⟩
    refine countPended_inv (I := fun u => ∀ t, u.events.pxContainer t ≠ some .xPendingReadyList) ?_ _
      (s := released s) rfl (released_free s)
    intro u hu hfree t
    rw [xTaskIncrementTick_eq hu]
    simp only [EventLists.removeAll_container]
    split
    · exact Option.some_ne_none _ ∘ Eq.symm
    · exact hfree t
  · rw [xTaskResumeAll_nested (by omega)] at hresumed
    have : s.uxSchedulerSuspended - 1 = 0 := hresumed
    omega

/-- Blocked tasks that become ready leave nothing behind. -/
theorem settled_step (hcount : 0 < s.uxCurrentNumberOfTasks) (h : Settled s) (hs : Step idle s e s') : Settled s' := by
  cases hs with
  | tickCounted hresumed =>
    intro _
    obtain ⟨hticks, hfree⟩ := h hresumed
    rw [xTaskIncrementTick_eq hresumed]
    refine ⟨hticks, ?_⟩
    intro t
    simp only [EventLists.removeAll_container]
    split
    · exact Option.some_ne_none _ ∘ Eq.symm
    · exact hfree t
  | tickPended hsuspended => exact fun hresumed => absurd hresumed (Nat.pos_iff_ne_zero.mp hsuspended)
  | switchContext s' hpend hs' =>
    obtain ⟨hsuspended, rfl⟩ | ⟨-, t, r, -, hs'⟩ := vTaskSwitchContext_cases hs'
    · exact h
    · rw [hs']
      exact h
  | wakeReady l t ts hl hresumed =>
    intro _
    obtain ⟨hticks, hfree⟩ := h hresumed
    refine ⟨hticks, ?_⟩
    intro u
    simp only [wakeAll, EventLists.removeAll_container]
    split
    · exact Option.some_ne_none _ ∘ Eq.symm
    · exact hfree u
  | wakeHeld l t ts hl hsuspended => exact fun hresumed => absurd hresumed (Nat.pos_iff_ne_zero.mp hsuspended)
  | unlockHeld l t ts hl hsuspended => exact fun hresumed => absurd hresumed (Nat.pos_iff_ne_zero.mp hsuspended)
  | suspend hat => exact fun hresumed => absurd hresumed (Nat.succ_ne_zero _)
  | resumeYielding hat hsuspended hyield => exact settled_resume hcount
  | resume thenYield hat hsuspended hyield => exact settled_resume hcount
  | delay xTicksToDelay hblock => exact h
  | place l xTicksToWait hblock =>
    intro hresumed
    exact absurd hresumed (Nat.pos_iff_ne_zero.mp hblock.2.1)
  | delayPlaced xTicksToWait hpc hpend => exact h
  | yield hat => exact h
  | delete hat hresumed hidle =>
    intro _
    obtain ⟨hticks, hfree⟩ := h hresumed
    refine ⟨hticks, ?_⟩
    intro t
    by_cases ht : t = s.pxCurrentTCB
    · subst ht
      simp [setPc, vTaskDelete]
    · simpa only [setPc, vTaskDelete, EventLists.remove_container_of_ne _ ht] using hfree t
  | cleanUp hat hidle hpos => exact h

/-! ## A blocked task does not go on -/

/-- `xTaskResumeAll` takes no task off the ready lists. -/
theorem ready_resume (hcount : 0 < s.uxCurrentNumberOfTasks) {t : τ} (ht : s.ready.Ready t) :
    (xTaskResumeAll s).1.ready.Ready t := by
  by_cases hlast : s.uxSchedulerSuspended ≤ 1
  · rw [xTaskResumeAll_last hcount hlast]
    refine countPended_inv (I := fun u => u.ready.Ready t) ?_ _ (s := released s) rfl ?_
    · intro u hu hready
      rw [xTaskIncrementTick_eq hu]
      exact ReadyLists.ready_addAll.mpr (.inr hready)
    · exact ReadyLists.ready_addAll.mpr (.inr ht)
  · rw [xTaskResumeAll_nested (by omega)]
    exact ht

/-- `xTaskResumeAll` asks for a switch when it says that it has yielded. -/
theorem resume_yields (hcount : 0 < s.uxCurrentNumberOfTasks) (h : (xTaskResumeAll s).2 = true) :
    (xTaskResumeAll s).1.pendSV = true := by
  by_cases hlast : s.uxSchedulerSuspended ≤ 1
  · rw [xTaskResumeAll_last hcount hlast] at h ⊢
    exact (congrArg (_ || ·) h).trans (Bool.or_true _)
  · rw [xTaskResumeAll_nested (by omega)] at h
    cases h

theorem stands_step (h : Good idle s) (hs : Step idle s e s') : Stands s' := by
  have hcount := h.filed.count_pos
  obtain ⟨hcurrent, hpcs⟩ := xTaskResumeAll_frame hcount
  intro hresumed' hpend' hpc'
  cases hs with
  | tickCounted hresumed =>
    obtain ⟨hpend, -⟩ := Bool.or_eq_false_iff.mp hpend'
    rw [xTaskIncrementTick_eq hresumed] at hpc' ⊢
    exact ReadyLists.ready_addAll.mpr (.inr (h.stands hresumed hpend hpc'))
  | tickPended hsuspended => exact absurd hresumed' (Nat.pos_iff_ne_zero.mp hsuspended)
  | switchContext s' hpend hs' =>
    obtain ⟨hsuspended, rfl⟩ | ⟨-, t, r, hselect, hs'⟩ := vTaskSwitchContext_cases hs'
    · exact absurd hresumed' (Nat.pos_iff_ne_zero.mp hsuspended)
    · rw [hs']
      exact (ReadyLists.ready_select hselect).mpr (ReadyLists.select_spec hselect).1
  | wakeReady l t ts hl hresumed =>
    obtain ⟨hpend, -⟩ := Bool.or_eq_false_iff.mp hpend'
    exact ReadyLists.ready_addAll.mpr (.inr (h.stands hresumed hpend hpc'))
  | wakeHeld l t ts hl hsuspended => exact absurd hresumed' (Nat.pos_iff_ne_zero.mp hsuspended)
  | unlockHeld l t ts hl hsuspended => exact absurd hresumed' (Nat.pos_iff_ne_zero.mp hsuspended)
  | suspend hat => exact absurd hresumed' (Nat.succ_ne_zero _)
  | resumeYielding hat hsuspended hyield => exact absurd (Function.update_self _ _ _) hpc'
  | resume thenYield hat hsuspended hyield =>
    rcases hyield with hyield | hready
    · rw [resume_yields hcount hyield] at hpend'
      cases hpend'
    · rw [hcurrent]
      exact ready_resume hcount hready
  | delay xTicksToDelay hblock => exact absurd hresumed' (Nat.pos_iff_ne_zero.mp hblock.2.1)
  | place l xTicksToWait hblock => exact absurd hresumed' (Nat.pos_iff_ne_zero.mp hblock.2.1)
  | delayPlaced xTicksToWait hpc hpend =>
    exact absurd hresumed' (Nat.pos_iff_ne_zero.mp (h.filed.placed _ _ hpc).2.1)
  | yield hat => cases hpend'
  | delete hat hresumed hidle => exact absurd (Function.update_self _ _ _) hpc'
  | cleanUp hat hidle hpos => exact hidle ▸ h.filed.idle_ready

/-! ## A woken task asks for a switch -/

/-- While `xTaskResumeAll` counts the pended ticks: a ready task of higher priority has set
`xYieldPending`. -/
def Noticed (s : State τ ε uxPriority) : Prop :=
  ∀ t, s.ready.Ready t → uxPriority s.pxCurrentTCB < uxPriority t → s.pendSV = true ∨ s.xYieldPending = true

theorem noticed_released (h : Prompt s) : Noticed (released s) := by
  intro t ht hlt
  rcases ReadyLists.ready_addAll.mp ht with hpending | hready
  · refine .inr ?_
    exact (congrArg (_ || ·) (preempts_of_mem hpending hlt)).trans (Bool.or_true _)
  · rcases h t (.inl hready) hlt with hpend | ⟨-, hyield⟩
    · exact .inl hpend
    · refine .inr ?_
      exact (congrArg (· || _) hyield).trans (Bool.true_or _)

theorem noticed_tick (hresumed : s.uxSchedulerSuspended = 0) (h : Noticed s) :
    Noticed { (xTaskIncrementTick s).1 with
      xYieldPending := (xTaskIncrementTick s).1.xYieldPending || (xTaskIncrementTick s).2 } := by
  have heq := xTaskIncrementTick_eq hresumed
  have hswitch := xTaskIncrementTick_switch hresumed
  intro t ht hlt
  rw [heq] at ht hlt ⊢
  rcases ReadyLists.ready_addAll.mp ht with hrung | hready
  · refine .inr ?_
    exact (congrArg (_ || ·) (hswitch (preempts_of_mem hrung hlt))).trans (Bool.or_true _)
  · refine (h t hready hlt).imp id ?_
    intro hyield
    exact (congrArg (· || _) hyield).trans (Bool.true_or _)

theorem prompt_resume (h : Good idle s) : Prompt (xTaskResumeAll s).1 := by
  have hcount := h.filed.count_pos
  have hsettled := settled_resume (s := s) hcount
  by_cases hlast : s.uxSchedulerSuspended ≤ 1
  · intro t ht hlt
    rw [xTaskResumeAll_last hcount hlast] at hsettled ht hlt ⊢
    have hnoticed : Noticed (countPended s.xPendedTicks.toNat (released s)) :=
      countPended_inv (fun _ => noticed_tick) _ rfl (noticed_released h.prompt)
    have hready := ht.resolve_right ((hsettled (countPended_frame _ rfl).2.2).2 t)
    refine .inl ?_
    rcases hnoticed t hready hlt with hpend | hyield
    · exact (congrArg (· || _) hpend).trans (Bool.true_or _)
    · exact (congrArg (_ || ·) hyield).trans (Bool.or_true _)
  · intro t ht hlt
    rw [xTaskResumeAll_nested (by omega)] at ht hlt ⊢
    refine (h.prompt t ht hlt).imp id ?_
    rintro ⟨-, hyield⟩
    exact ⟨Nat.sub_pos_of_lt (by omega), hyield⟩

theorem woken_hold {t u : τ} (h : Woken (holdPending t s) u) : u = t ∨ Woken s u := by
  rcases h with hready | hc
  · exact .inr (.inl hready)
  · by_cases hu : u = t
    · exact .inl hu
    · simp only [holdPending, EventLists.hold, EventLists.insertPending_container, if_neg hu, EventLists.remove_container_of_ne _ hu] at hc
      exact .inr (.inr hc)

/-- Who is held back asks for a switch as it is. -/
theorem prompt_hold (hsuspended : 0 < s.uxSchedulerSuspended) (h : Prompt s) {t u : τ}
    (hu : Woken (holdPending t s) u) (hlt : uxPriority s.pxCurrentTCB < uxPriority u) :
    s.pendSV = true ∨ (0 < s.uxSchedulerSuspended ∧ (s.xYieldPending || preempts [t] s) = true) := by
  rcases woken_hold hu with rfl | hwoken
  · rw [preempts_of_mem List.mem_cons_self hlt, Bool.or_true]
    exact .inr ⟨hsuspended, rfl⟩
  · refine (h u hwoken hlt).imp id ?_
    rintro ⟨-, hyield⟩
    exact ⟨hsuspended, (congrArg (· || _) hyield).trans (Bool.true_or _)⟩

theorem prompt_step (h : Good idle s) (hs : Step idle s e s') : Prompt s' := by
  have hprompt := h.prompt
  have hready_of_remove : ∀ t u, (s.ready.remove t).Ready u → s.ready.Ready u := by
    intro t u hu
    exact ((ReadyLists.ready_remove (ReadyLists.list_nodup h.filed.ready_nodup _)).mp hu).2
  intro t ht hlt
  cases hs with
  | tickCounted hresumed =>
    have hswitch := xTaskIncrementTick_switch hresumed
    have hsettled := settled_step h.filed.count_pos h.settled (.tickCounted hresumed : Step idle s .tick _)
    rw [xTaskIncrementTick_eq hresumed] at ht hlt hsettled ⊢
    refine .inl ?_
    rcases ReadyLists.ready_addAll.mp (ht.resolve_right ((hsettled hresumed).2 t)) with hrung | hready
    · exact (congrArg (_ || ·) (hswitch (preempts_of_mem hrung hlt))).trans (Bool.or_true _)
    · have hpend := (hprompt t (.inl hready) hlt).resolve_right (fun hsusp => absurd hresumed (Nat.pos_iff_ne_zero.mp hsusp.1))
      exact (congrArg (· || _) hpend).trans (Bool.true_or _)
  | tickPended hsuspended => exact hprompt t ht hlt
  | switchContext s' hpend hs' =>
    obtain ⟨hsuspended, rfl⟩ | ⟨hresumed, r, rs, hselect, hs'⟩ := vTaskSwitchContext_cases hs'
    · exact .inr ⟨hsuspended, rfl⟩
    · rw [hs'] at ht hlt
      have hready := ht.resolve_right ((h.settled hresumed).2 t)
      have hle := (ReadyLists.select_spec hselect).2.1 t ((ReadyLists.ready_select hselect).mp hready)
      exact absurd hlt (not_lt.mpr hle)
  | wakeReady l r rs hl hresumed =>
    have hsettled := settled_step h.filed.count_pos h.settled (.wakeReady l r rs hl hresumed : Step idle s (.wake l) _)
    refine .inl ?_
    rcases ReadyLists.ready_addAll.mp (ht.resolve_right ((hsettled hresumed).2 t)) with hwoken | hready
    · exact (congrArg (_ || ·) (preempts_of_mem hwoken hlt)).trans (Bool.or_true _)
    · have hpend := (hprompt t (.inl hready) hlt).resolve_right (fun hsusp => absurd hresumed (Nat.pos_iff_ne_zero.mp hsusp.1))
      exact (congrArg (· || _) hpend).trans (Bool.true_or _)
  | wakeHeld l r rs hl hsuspended =>
    refine (prompt_hold hsuspended hprompt ht hlt).imp ?_ id
    intro hpend
    exact (congrArg (· || _) hpend).trans (Bool.true_or _)
  | unlockHeld l r rs hl hsuspended => exact prompt_hold hsuspended hprompt ht hlt
  | suspend hat =>
    refine (hprompt t ht hlt).imp id ?_
    rintro ⟨-, hyield⟩
    exact ⟨Nat.succ_pos _, hyield⟩
  | resumeYielding hat hsuspended hyield => exact prompt_resume h t ht hlt
  | resume thenYield hat hsuspended hyield => exact prompt_resume h t ht hlt
  | delay xTicksToDelay hblock => exact hprompt t (ht.imp (hready_of_remove _ t) id) hlt
  | place l xTicksToWait hblock =>
    refine hprompt t (ht.imp id ?_) hlt
    intro hc
    simp only [setPc, EventLists.insert_container] at hc
    split at hc
    · cases hc
    · exact hc
  | delayPlaced xTicksToWait hpc hpend => exact hprompt t (ht.imp (hready_of_remove _ t) id) hlt
  | yield hat => exact .inl rfl
  | delete hat hresumed hidle =>
    refine hprompt t (ht.imp (hready_of_remove _ t) ?_) hlt
    intro hc
    by_cases ht : t = s.pxCurrentTCB
    · subst ht
      simp [setPc, vTaskDelete] at hc
    · simpa only [setPc, vTaskDelete, EventLists.remove_container_of_ne _ ht] using hc
  | cleanUp hat hidle hpos => exact hprompt t ht hlt

/-! ## Every run -/

/-- Who deletes itself is ready. -/
theorem Good.deletes_ready (h : Good idle s) (hs : Step idle s e s') (he : e = .delete) :
    s.ready.Ready s.pxCurrentTCB := by
  subst he
  cases hs with
  | delete hat hresumed hidle =>
    refine h.stands hresumed hat.1 ?_
    rw [hat.2]
    exact Pc.noConfusion

theorem good_step (h : Good idle s) (hs : Step idle s e s') : Good idle s' :=
  ⟨(filed_step h.filed hs (h.deletes_ready hs)).1, settled_step h.filed.count_pos h.settled hs, stands_step h hs,
    prompt_step h hs⟩

theorem good_exec {t : τ} {ts : List τ} (hnodup : (t :: ts).Nodup) (hidle : idle ∈ t :: ts) {es : List (Event ε)}
    (h : exec (step idle) (start t ts : State τ ε uxPriority) es = some s) : Good idle s :=
  exec_inv (I := Good idle) (fun _ _ _ hgood hs => good_step hgood (step_cases hs)) h (good_start hnodup hidle).1

/-- The tasks a step leaves in the lists were there before. -/
theorem places_step_le (hgood : Good idle s) (hs : step idle s e = some s') : places s' ≤ places s := by
  obtain ⟨-, gone, hgone, -⟩ := filed_step hgood.filed (step_cases hs) (hgood.deletes_ready (step_cases hs))
  exact hgone ▸ Multiset.le_add_left _ _

/-- Every run of a scheduler that has started with the tasks `t` and `ts`. -/
theorem places_exec {t : τ} {ts : List τ} (hnodup : (t :: ts).Nodup) (hidle : idle ∈ t :: ts) {es : List (Event ε)}
    (h : exec (step idle) (start t ts : State τ ε uxPriority) es = some s) :
    ∃ gone : Multiset τ, gone + places s = (t :: ts : List τ) ∧ gone.card = es.count .cleanUp := by
  induction es using List.reverseRecOn generalizing s with
  | nil =>
    cases h
    exact ⟨0, (zero_add _).trans (good_start hnodup hidle).2, rfl⟩
  | append_singleton es e ih =>
    obtain ⟨u, hu, hs⟩ := exec_snoc.mp h
    have hgood := good_exec hnodup hidle hu
    obtain ⟨gone, hgone, hcount⟩ := ih hu
    obtain ⟨gone', hgone', hcount'⟩ :=
      (filed_step hgood.filed (step_cases hs) (hgood.deletes_ready (step_cases hs))).2
    refine ⟨gone + gone', ?_, ?_⟩
    · rw [add_assoc, hgone', hgone]
    · rw [Multiset.card_add, hcount, hcount', List.count_append, List.count_singleton]
      by_cases he : e = .cleanUp
      · simp [he]
      · simp [he]

/-- **No task is lost and none is in two lists.** -/
theorem tasks_accounted {t : τ} {ts : List τ} (hnodup : (t :: ts).Nodup) (hidle : idle ∈ t :: ts) {es : List (Event ε)}
    (h : exec (step idle) (start t ts : State τ ε uxPriority) es = some s) :
    (∃ gone : Multiset τ, s.ready.tasks + (s.delayed.owners : Multiset τ) + (s.xTasksWaitingTermination : Multiset τ) +
        gone = (t :: ts : List τ) ∧
      gone.card = es.count .cleanUp ∧ s.uxCurrentNumberOfTasks + gone.card = (t :: ts).length) ∧
    (∀ l u, u ∈ s.events.lists l → u ∈ s.delayed.owners ∨ (u = s.pxCurrentTCB ∧ ∃ x, s.pc u = .placed x)) := by
  have hgood := good_exec hnodup hidle h
  obtain ⟨gone, hgone, hcount⟩ := places_exec hnodup hidle h
  refine ⟨⟨gone, (add_comm _ _).trans hgone, hcount, ?_⟩, ?_⟩
  · rw [← hgood.filed.counted, Nat.add_comm, ← Multiset.card_add, hgone, Multiset.coe_card]
  · intro l u hu
    refine (hgood.filed.waits u l ((s.events.contained l u).mp hu)).imp id ?_
    rintro ⟨x, hx⟩
    exact ⟨(hgood.filed.placed u x hx).1, x, hx⟩

/-- The monitor deletes itself, and the idle task cleans up. -/
theorem tasks_accounted_deleted :
    ∃ s, exec (step .idle) (start .monitor [.idle] : State Task Waiting Task.uxPriority)
        [.delete, .yield, .pendSV, .cleanUp] = some s ∧
      ∃ gone : Multiset Task, s.ready.tasks + (s.delayed.owners : Multiset Task) +
          (s.xTasksWaitingTermination : Multiset Task) + gone = ([.monitor, .idle] : List Task) ∧
        gone.card = 1 ∧ s.uxCurrentNumberOfTasks + gone.card = 2 := by
  have hrun : exec (step .idle) (start .monitor [.idle] : State Task Waiting Task.uxPriority)
      [.delete, .yield, .pendSV, .cleanUp] = some _ := rfl
  exact ⟨_, hrun, (tasks_accounted (by decide) (by decide) hrun).1⟩

/-- **The task that runs is the right one.** -/
theorem highest_runs {t : τ} {ts : List τ} (hnodup : (t :: ts).Nodup) (hidle : idle ∈ t :: ts) {es : List (Event ε)}
    (h : exec (step idle) (start t ts : State τ ε uxPriority) es = some s) (hresumed : s.uxSchedulerSuspended = 0)
    (hpend : s.pendSV = false) (hpc : s.pc s.pxCurrentTCB ≠ .yielding) :
    s.ready.Ready s.pxCurrentTCB ∧ ∀ u, s.ready.Ready u → uxPriority u ≤ uxPriority s.pxCurrentTCB := by
  have hgood := good_exec hnodup hidle h
  refine ⟨hgood.stands hresumed hpend hpc, ?_⟩
  intro u hu
  by_contra hlt
  rcases hgood.prompt u (.inl hu) (not_le.mp hlt) with hpend' | ⟨hsuspended, -⟩
  · rw [hpend] at hpend'
    cases hpend'
  · omega

/-- The receiver blocks on its queue, and the sensor runs. -/
theorem highest_runs_sensor :
    ∃ s, exec (step .idle) firmware [.suspend, .place (.toReceive 0) portMAX_DELAY, .delayPlaced, .resume true, .yield,
        .pendSV] = some s ∧ s.pxCurrentTCB = .sensor ∧
      ∀ u, s.ready.Ready u → Task.uxPriority u ≤ Task.uxPriority s.pxCurrentTCB := by
  have hrun : exec (step .idle) firmware [.suspend, .place (.toReceive 0) portMAX_DELAY, .delayPlaced, .resume true,
      .yield, .pendSV] = some _ := rfl
  exact ⟨_, hrun, rfl, (highest_runs (by decide) (by decide) hrun rfl rfl (by decide)).2⟩

/-- **A switch finds a task**: `taskSELECT_HIGHEST_PRIORITY_TASK` never reads an empty list. -/
theorem switch_finds_task {t : τ} {ts : List τ} (hnodup : (t :: ts).Nodup) (hidle : idle ∈ t :: ts)
    {es : List (Event ε)} (h : exec (step idle) (start t ts : State τ ε uxPriority) es = some s)
    (hpend : s.pendSV = true) :
    ∃ s', step idle s .pendSV = some s' ∧ s'.pendSV = false ∧
      (s.uxSchedulerSuspended = 0 → s'.ready.Ready s'.pxCurrentTCB ∧
        ∀ u, s'.ready.Ready u → uxPriority u ≤ uxPriority s'.pxCurrentTCB) := by
  have hgood := good_exec hnodup hidle h
  obtain ⟨r, rs, hselect⟩ := ReadyLists.select_isSome hgood.filed.idle_ready
  obtain ⟨hready, hhighest, -⟩ := ReadyLists.select_spec hselect
  have hstep : step idle s .pendSV = vTaskSwitchContext { s with pendSV := false } := if_pos hpend
  rw [hstep, vTaskSwitchContext]
  by_cases hsuspended : s.uxSchedulerSuspended ≠ 0
  · rw [if_pos hsuspended]
    exact ⟨_, rfl, rfl, fun hresumed => absurd hresumed hsuspended⟩
  · simp only [if_neg hsuspended, hselect, Option.map_some]
    refine ⟨_, rfl, rfl, fun _ => ⟨(ReadyLists.ready_select hselect).mpr hready, ?_⟩⟩
    intro u hu
    exact hhighest u ((ReadyLists.ready_select hselect).mp hu)

/-- The first tick of the firmware that finds a task of equal priority. -/
theorem switch_finds_task_first :
    ∃ s s', exec (step .idle) (start .sensor [.updateN, .idle] : State Task Waiting Task.uxPriority) [.tick] = some s ∧
      step .idle s .pendSV = some s' ∧ s'.ready.Ready s'.pxCurrentTCB := by
  have hrun : exec (step .idle) (start .sensor [.updateN, .idle] : State Task Waiting Task.uxPriority) [.tick] =
      some _ := rfl
  obtain ⟨s', hs', -, hready⟩ := switch_finds_task (by decide) (by decide) hrun rfl
  exact ⟨_, s', hrun, hs', (hready rfl).1⟩

end WindowFilter.Scheduler
