import WindowFilter.Scheduler.Model

/- What the scheduler's functions and its steps do, in one piece: the loops as single
   updates of the lists, `xTaskResumeAll` by whether it is the last, and `Step`, which has
   a case for each thing a step can do (`step_cases`). -/
namespace WindowFilter.Scheduler

variable {τ ε : Type} {uxPriority : τ → Priority} [DecidableEq τ] [DecidableEq ε]

/-- Blocked tasks become ready. -/
def wakeAll (ts : List τ) (s : State τ ε uxPriority) : State τ ε uxPriority :=
  { s with ready := s.ready.addAll ts, delayed := s.delayed.removeAll ts, events := s.events.removeAll ts }

/-- A task of an event list has to wait for `xTaskResumeAll`. -/
def holdPending (t : τ) (s : State τ ε uxPriority) : State τ ε uxPriority :=
  { s with events := s.events.hold t }

/-- One of the tasks `ts` is to run before the running one. -/
def preempts (ts : List τ) (s : State τ ε uxPriority) : Bool :=
  ts.any (fun t => decide (uxPriority s.pxCurrentTCB < uxPriority t))

/-- `xTaskResumeAll` after its first loop, which empties `xPendingReadyList`. -/
def released (s : State τ ε uxPriority) : State τ ε uxPriority :=
  let pending := s.events.lists .xPendingReadyList
  let delayed := s.delayed.removeAll pending
  { wakeAll pending s with
    delayed := if pending = [] then delayed else delayed.prvResetNextTaskUnblockTime
    uxSchedulerSuspended := 0
    xYieldPending := s.xYieldPending || preempts pending s }

theorem unblockTasks_eq (ts : List τ) (s : State τ ε uxPriority) :
    unblockTasks ts s = ({ s with ready := s.ready.addAll ts, events := s.events.removeAll ts }, preempts ts s) := by
  induction ts generalizing s with
  | nil => rfl
  | cons t ts ih =>
    rw [unblockTasks, ih]
    rfl

/-- A tick, counted. -/
theorem xTaskIncrementTick_eq {s : State τ ε uxPriority} (h : s.uxSchedulerSuspended = 0) :
    (xTaskIncrementTick s).1 =
      { s with ready := s.ready.addAll s.delayed.xTaskIncrementTick.1, delayed := s.delayed.xTaskIncrementTick.2,
               events := s.events.removeAll s.delayed.xTaskIncrementTick.1, ticks := s.ticks + 1 } := by
  simp only [xTaskIncrementTick, if_pos h, unblockTasks_eq]

/-- A counted tick asks for a switch where it wakes a task of higher priority. -/
theorem xTaskIncrementTick_switch {s : State τ ε uxPriority} (h : s.uxSchedulerSuspended = 0)
    (hwakes : preempts s.delayed.xTaskIncrementTick.1 s = true) : (xTaskIncrementTick s).2 = true := by
  simp only [xTaskIncrementTick, if_pos h, unblockTasks_eq]
  rw [preempts] at hwakes ⊢
  rw [hwakes]
  rfl

theorem xTaskIncrementTick_suspended {s : State τ ε uxPriority} (h : 0 < s.uxSchedulerSuspended) :
    xTaskIncrementTick s = ({ s with xPendedTicks := s.xPendedTicks + 1 }, false) := by
  rw [xTaskIncrementTick, if_neg (by omega)]

/-- A woken task is ready at once, or has to wait for `xTaskResumeAll`. -/
theorem xTaskRemoveFromEventList_eq (t : τ) (s : State τ ε uxPriority) :
    xTaskRemoveFromEventList t s =
      ({ (if s.uxSchedulerSuspended = 0 then wakeAll [t] s else holdPending t s) with
          xYieldPending := s.xYieldPending || preempts [t] s }, preempts [t] s) := by
  have hpre : preempts [t] s = decide (uxPriority s.pxCurrentTCB < uxPriority t) := Bool.or_false _
  rw [xTaskRemoveFromEventList, hpre]
  by_cases hresumed : s.uxSchedulerSuspended = 0
  · rw [if_pos hresumed, if_pos hresumed]
    by_cases hlt : uxPriority s.pxCurrentTCB < uxPriority t
    · rw [decide_eq_true hlt, Bool.or_true]
      exact if_pos hlt
    · rw [decide_eq_false hlt, Bool.or_false]
      exact if_neg hlt
  · rw [if_neg hresumed, if_neg hresumed]
    by_cases hlt : uxPriority s.pxCurrentTCB < uxPriority t
    · rw [decide_eq_true hlt, Bool.or_true]
      exact if_pos hlt
    · rw [decide_eq_false hlt, Bool.or_false]
      exact if_neg hlt

theorem movePending_eq (ts : List τ) (s : State τ ε uxPriority) :
    movePending ts s = { wakeAll ts s with xYieldPending := s.xYieldPending || preempts ts s } := by
  induction ts generalizing s with
  | nil =>
    rw [preempts, List.any_nil, Bool.or_false]
    rfl
  | cons t ts ih =>
    have hpre : preempts (t :: ts) s = (decide (uxPriority s.pxCurrentTCB < uxPriority t) || preempts ts s) := rfl
    rw [movePending, ih, hpre, ← Bool.or_assoc]
    rfl

/-- The first loop and the reset after it. -/
theorem released_eq {s : State τ ε uxPriority} (hlast : s.uxSchedulerSuspended - 1 = 0) :
    (if s.events.lists .xPendingReadyList = [] then
        movePending (s.events.lists .xPendingReadyList) { s with uxSchedulerSuspended := s.uxSchedulerSuspended - 1 }
      else
        let moved := movePending (s.events.lists .xPendingReadyList)
          { s with uxSchedulerSuspended := s.uxSchedulerSuspended - 1 }
        { moved with delayed := moved.delayed.prvResetNextTaskUnblockTime }) = released s := by
  simp only [movePending_eq, released, hlast]
  split
  · rfl
  · rfl

/-- `xTaskResumeAll`: the last one releases the tasks held back and counts the ticks. -/
theorem xTaskResumeAll_last {s : State τ ε uxPriority} (hcount : 0 < s.uxCurrentNumberOfTasks)
    (hlast : s.uxSchedulerSuspended ≤ 1) :
    xTaskResumeAll s =
      (let u := countPended s.xPendedTicks.toNat (released s)
       ({ u with xPendedTicks := 0, pendSV := u.pendSV || u.xYieldPending }, u.xYieldPending)) := by
  have hzero : s.uxSchedulerSuspended - 1 = 0 := by omega
  have hpended : (released s).xPendedTicks = s.xPendedTicks := rfl
  refine (if_pos ⟨hzero, hcount⟩).trans ?_
  simp only [released_eq hzero, hpended]
  generalize countPended s.xPendedTicks.toNat (released s) = u
  by_cases hyield : u.xYieldPending = true
  · rw [if_pos hyield, hyield, Bool.or_true]
  · rw [if_neg hyield, Bool.eq_false_iff.mpr hyield, Bool.or_false]

theorem xTaskResumeAll_nested {s : State τ ε uxPriority} (hmore : 1 < s.uxSchedulerSuspended) :
    xTaskResumeAll s = ({ s with uxSchedulerSuspended := s.uxSchedulerSuspended - 1 }, false) := by
  rw [xTaskResumeAll]
  refine if_neg ?_
  rintro ⟨hzero, -⟩
  simp only at hzero
  omega

/-- What a counted tick keeps, the loop over the pended ticks keeps. -/
theorem countPended_inv {I : State τ ε uxPriority → Prop}
    (htick : ∀ s, s.uxSchedulerSuspended = 0 → I s →
      I { (xTaskIncrementTick s).1 with xYieldPending := (xTaskIncrementTick s).1.xYieldPending || (xTaskIncrementTick s).2 })
    (n : Nat) {s : State τ ε uxPriority} (hresumed : s.uxSchedulerSuspended = 0) (h : I s) : I (countPended n s) := by
  induction n generalizing s with
  | zero => exact h
  | succ n ih =>
    refine ih ?_ (htick s hresumed h)
    rw [xTaskIncrementTick_eq hresumed]
    exact hresumed

/-- `xTaskResumeAll` switches no task and moves no program counter. -/
theorem countPended_frame (n : Nat) {s : State τ ε uxPriority} (h : s.uxSchedulerSuspended = 0) :
    (countPended n s).pxCurrentTCB = s.pxCurrentTCB ∧ (countPended n s).pc = s.pc ∧
      (countPended n s).uxSchedulerSuspended = 0 := by
  refine countPended_inv (I := fun u => u.pxCurrentTCB = s.pxCurrentTCB ∧ u.pc = s.pc ∧ u.uxSchedulerSuspended = 0)
    ?_ n h ⟨rfl, rfl, h⟩
  intro u hu hframe
  rw [xTaskIncrementTick_eq hu]
  exact hframe

theorem xTaskResumeAll_frame {s : State τ ε uxPriority} (hcount : 0 < s.uxCurrentNumberOfTasks) :
    (xTaskResumeAll s).1.pxCurrentTCB = s.pxCurrentTCB ∧ (xTaskResumeAll s).1.pc = s.pc := by
  by_cases hlast : s.uxSchedulerSuspended ≤ 1
  · rw [xTaskResumeAll_last hcount hlast]
    obtain ⟨hcurrent, hpc, -⟩ := countPended_frame s.xPendedTicks.toNat (s := released s) rfl
    exact ⟨hcurrent, hpc⟩
  · rw [xTaskResumeAll_nested (by omega)]
    exact ⟨rfl, rfl⟩

/-- The counters at a switch, which adds the time since the last one to the counter of the
running task. -/
def charged (s : State τ ε uxPriority) : τ → UInt32 :=
  if s.delayed.xTickCount > s.ulTaskSwitchedInTime then
    Function.update s.ulRunTimeCounter s.pxCurrentTCB
      (s.ulRunTimeCounter s.pxCurrentTCB + (s.delayed.xTickCount - s.ulTaskSwitchedInTime))
  else s.ulRunTimeCounter

omit [DecidableEq τ] [DecidableEq ε] in
theorem preempts_of_mem {s : State τ ε uxPriority} {ts : List τ} {t : τ} (ht : t ∈ ts)
    (hlt : uxPriority s.pxCurrentTCB < uxPriority t) : preempts ts s = true :=
  List.any_eq_true.mpr ⟨t, ht, decide_eq_true hlt⟩

omit [DecidableEq ε] in
/-- What the PendSV handler can do. -/
theorem vTaskSwitchContext_cases {s s' : State τ ε uxPriority} (h : vTaskSwitchContext s = some s') :
    (0 < s.uxSchedulerSuspended ∧ s' = { s with xYieldPending := true }) ∨
    (s.uxSchedulerSuspended = 0 ∧ ∃ t r, s.ready.taskSELECT_HIGHEST_PRIORITY_TASK = some (t, r) ∧
      s' = { s with xYieldPending := false, ulRunTimeCounter := charged s,
                    ulTaskSwitchedInTime := s.delayed.xTickCount, pxCurrentTCB := t, ready := r }) := by
  rw [vTaskSwitchContext] at h
  split at h
  · next hsuspended => exact .inl ⟨Nat.pos_of_ne_zero hsuspended, (Option.some.inj h).symm⟩
  · next hresumed =>
    obtain ⟨⟨t, r⟩, hselect, rfl⟩ := Option.map_eq_some_iff.mp h
    exact .inr ⟨not_ne_iff.mp hresumed, t, r, hselect, rfl⟩

/-! ## Steps -/

/-- What the event can do in the state `s`. -/
inductive Step (idle : τ) (s : State τ ε uxPriority) : Event ε → State τ ε uxPriority → Prop where
  | tickCounted (hresumed : s.uxSchedulerSuspended = 0) :
    Step idle s .tick { (xTaskIncrementTick s).1 with pendSV := s.pendSV || (xTaskIncrementTick s).2 }
  | tickPended (hsuspended : 0 < s.uxSchedulerSuspended) :
    Step idle s .tick { s with xPendedTicks := s.xPendedTicks + 1 }
  | switchContext (s' : State τ ε uxPriority) (hpend : s.pendSV = true)
    (hs' : vTaskSwitchContext { s with pendSV := false } = some s') : Step idle s .pendSV s'
  | wakeReady (l : ε) (t : τ) (ts : List τ) (hl : s.events.lists (.event l) = t :: ts)
    (hresumed : s.uxSchedulerSuspended = 0) :
    Step idle s (.wake l) { wakeAll [t] s with
      xYieldPending := s.xYieldPending || preempts [t] s, pendSV := s.pendSV || preempts [t] s }
  | wakeHeld (l : ε) (t : τ) (ts : List τ) (hl : s.events.lists (.event l) = t :: ts)
    (hsuspended : 0 < s.uxSchedulerSuspended) :
    Step idle s (.wake l) { holdPending t s with
      xYieldPending := s.xYieldPending || preempts [t] s, pendSV := s.pendSV || preempts [t] s }
  | unlockHeld (l : ε) (t : τ) (ts : List τ) (hl : s.events.lists (.event l) = t :: ts)
    (hsuspended : 0 < s.uxSchedulerSuspended) :
    Step idle s (.unlock l) { holdPending t s with xYieldPending := s.xYieldPending || preempts [t] s }
  | suspend (hat : At s .running) : Step idle s .suspend (vTaskSuspendAll s)
  | resumeYielding (hat : At s .running) (hsuspended : 0 < s.uxSchedulerSuspended)
    (hyield : (xTaskResumeAll s).2 = false) :
    Step idle s (.resume true) (setPc .yielding (xTaskResumeAll s).1)
  | resume (thenYield : Bool) (hat : At s .running) (hsuspended : 0 < s.uxSchedulerSuspended)
    (hyield : (xTaskResumeAll s).2 = true ∨ s.ready.Ready s.pxCurrentTCB) :
    Step idle s (.resume thenYield) (xTaskResumeAll s).1
  | delay (xTicksToDelay : UInt32) (h : MayBlock idle s xTicksToDelay) :
    Step idle s (.delay xTicksToDelay) (prvAddCurrentTaskToDelayedList xTicksToDelay s)
  | place (l : ε) (xTicksToWait : UInt32) (h : MayBlock idle s xTicksToWait) :
    Step idle s (.place l xTicksToWait)
      (setPc (.placed xTicksToWait) { s with events := s.events.insert uxPriority s.pxCurrentTCB l h.2.2.2.2.2 })
  | delayPlaced (xTicksToWait : UInt32) (hpc : s.pc s.pxCurrentTCB = .placed xTicksToWait) (hpend : s.pendSV = false) :
    Step idle s .delayPlaced (setPc .running (prvAddCurrentTaskToDelayedList xTicksToWait s))
  | yield (hat : At s .running ∨ At s .yielding) : Step idle s .yield (setPc .running { s with pendSV := true })
  | delete (hat : At s .running) (hresumed : s.uxSchedulerSuspended = 0) (hidle : s.pxCurrentTCB ≠ idle) :
    Step idle s .delete (setPc .yielding (vTaskDelete s))
  | cleanUp (hat : At s .running) (hidle : s.pxCurrentTCB = idle) (hpos : 0 < s.uxDeletedTasksWaitingCleanUp) :
    Step idle s .cleanUp (prvCheckTasksWaitingTermination s)

theorem step_cases {idle : τ} {s s' : State τ ε uxPriority} {e : Event ε} (h : step idle s e = some s') :
    Step idle s e s' := by
  cases e with
  | tick =>
    cases h
    by_cases hresumed : s.uxSchedulerSuspended = 0
    · have hpend : (xTaskIncrementTick s).1.pendSV = s.pendSV := by rw [xTaskIncrementTick_eq hresumed]
      rw [hpend]
      exact .tickCounted hresumed
    · rw [xTaskIncrementTick_suspended (Nat.pos_of_ne_zero hresumed)]
      simp only [Bool.or_false]
      exact .tickPended (Nat.pos_of_ne_zero hresumed)
  | pendSV =>
    simp only [step] at h
    split at h
    · next hpend => exact .switchContext s' hpend h
    · cases h
  | wake l =>
    simp only [step] at h
    split at h
    · next t ts hl =>
      cases h
      rw [xTaskRemoveFromEventList_eq]
      by_cases hresumed : s.uxSchedulerSuspended = 0
      · simp only [if_pos hresumed]
        exact .wakeReady l t ts hl hresumed
      · simp only [if_neg hresumed]
        exact .wakeHeld l t ts hl (Nat.pos_of_ne_zero hresumed)
    · cases h
  | unlock l =>
    simp only [step] at h
    split at h
    · next hsuspended =>
      split at h
      · next t ts hl =>
        cases h
        rw [xTaskRemoveFromEventList_eq]
        simp only [if_neg (Nat.pos_iff_ne_zero.mp hsuspended), Bool.or_assoc, Bool.or_self]
        exact .unlockHeld l t ts hl hsuspended
      · cases h
    · cases h
  | suspend =>
    simp only [step] at h
    split at h
    · next hat =>
      cases h
      exact .suspend hat
    · cases h
  | resume thenYield =>
    simp only [step] at h
    split at h
    · next hguard =>
      obtain ⟨hat, hsuspended, hready⟩ := hguard
      cases h
      cases hr : (xTaskResumeAll s).2 with
      | true =>
        rw [Bool.not_true, Bool.and_false, if_neg Bool.false_ne_true]
        exact .resume thenYield hat hsuspended (.inl hr)
      | false =>
        cases thenYield with
        | true => exact .resumeYielding hat hsuspended hr
        | false => exact .resume false hat hsuspended (.inr (hready.resolve_left Bool.false_ne_true))
    · cases h
  | delay xTicksToDelay =>
    simp only [step] at h
    split at h
    · next hblock =>
      cases h
      exact .delay xTicksToDelay hblock
    · cases h
  | place l xTicksToWait =>
    simp only [step] at h
    split at h
    · next hblock =>
      cases h
      exact .place l xTicksToWait hblock
    · cases h
  | delayPlaced =>
    simp only [step] at h
    split at h
    · next xTicksToWait hpc =>
      split at h
      · cases h
      · next hpend =>
        cases h
        exact .delayPlaced xTicksToWait hpc (Bool.eq_false_iff.mpr hpend)
    · cases h
  | yield =>
    simp only [step] at h
    split at h
    · next hat =>
      cases h
      exact .yield hat
    · cases h
  | delete =>
    simp only [step] at h
    split at h
    · next hguard =>
      cases h
      exact .delete hguard.1 hguard.2.1 hguard.2.2
    · cases h
  | cleanUp =>
    simp only [step] at h
    split at h
    · next hguard =>
      cases h
      exact .cleanUp hguard.1 hguard.2.1 hguard.2.2
    · cases h

end WindowFilter.Scheduler
