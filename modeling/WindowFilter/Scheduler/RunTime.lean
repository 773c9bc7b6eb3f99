import WindowFilter.Scheduler.Time

/- Run time. While the tick count has not wrapped, the run-time counter of each task is
   exactly the number of ticks counted while it was the running task, up to the last switch
   (`run_time_exact`): a tick that comes in a suspended section is charged when it is
   counted, and nothing is charged twice. -/
namespace WindowFilter.Scheduler
open Steps

variable {τ ε : Type} {uxPriority : τ → Priority} [DecidableEq τ]

/-- The run time of `t`: what its counter holds, and what the next switch adds to it. -/
def runTime (t : τ) (s : State τ ε uxPriority) : Nat :=
  (s.ulRunTimeCounter t).toNat + if s.pxCurrentTCB = t then s.ticks - s.ulTaskSwitchedInTime.toNat else 0

/-- No counter holds more than the time up to the last switch, which lies in the past. -/
def Charged (s : State τ ε uxPriority) : Prop :=
  s.ulTaskSwitchedInTime.toNat ≤ s.ticks ∧ ∀ t, (s.ulRunTimeCounter t).toNat ≤ s.ulTaskSwitchedInTime.toNat

variable [DecidableEq ε] {idle : τ} {s s' : State τ ε uxPriority} {e : Event ε}

/-- The ticks the step counts while `t` is the running task. -/
def counted (idle t : τ) (s : State τ ε uxPriority) (e : Event ε) : Nat :=
  match step idle s e with
  | some s' => if s.pxCurrentTCB = t then s'.ticks - s.ticks else 0
  | none => 0

/-- The ticks a run has counted while `t` was the running task. -/
def ran (idle t : τ) : State τ ε uxPriority → List (Event ε) → Nat := sumSteps (step idle) (counted idle t)

/-- The step charges no task. -/
structure Uncharged (s s' : State τ ε uxPriority) : Prop where
  current : s'.pxCurrentTCB = s.pxCurrentTCB
  counters : s'.ulRunTimeCounter = s.ulRunTimeCounter
  since : s'.ulTaskSwitchedInTime = s.ulTaskSwitchedInTime
  forward : s.ticks ≤ s'.ticks

theorem uncharged_tick {u : State τ ε uxPriority} (hresumed : u.uxSchedulerSuspended = 0) (h : Uncharged s u) :
    Uncharged s (xTaskIncrementTick u).1 := by
  rw [xTaskIncrementTick_eq hresumed]
  exact ⟨h.current, h.counters, h.since, Nat.le_succ_of_le h.forward⟩

theorem uncharged_resume (hcount : 0 < s.uxCurrentNumberOfTasks) : Uncharged s (xTaskResumeAll s).1 := by
  by_cases hlast : s.uxSchedulerSuspended ≤ 1
  · have hcounted : Uncharged s (countPended s.xPendedTicks.toNat (released s)) := by
      refine countPended_inv (I := Uncharged s) ?_ _ rfl ⟨rfl, rfl, rfl, Nat.le_refl _⟩
      intro u hu h
      have := uncharged_tick hu h
      exact ⟨this.current, this.counters, this.since, this.forward⟩
    rw [xTaskResumeAll_last hcount hlast]
    exact ⟨hcounted.current, hcounted.counters, hcounted.since, hcounted.forward⟩
  · rw [xTaskResumeAll_nested (by omega)]
    exact ⟨rfl, rfl, rfl, Nat.le_refl _⟩

/-- **Only a switch charges**, and the task it charges is the one that has run. -/
theorem charges_cases (hcount : 0 < s.uxCurrentNumberOfTasks) (hs : Step idle s e s') :
    Uncharged s s' ∨
    (s'.ulRunTimeCounter = charged s ∧ s'.ulTaskSwitchedInTime = s.delayed.xTickCount ∧ s'.ticks = s.ticks) := by
  have hsame : ∀ {u : State τ ε uxPriority}, u.pxCurrentTCB = s.pxCurrentTCB →
      u.ulRunTimeCounter = s.ulRunTimeCounter → u.ulTaskSwitchedInTime = s.ulTaskSwitchedInTime → u.ticks = s.ticks →
      Uncharged s u := fun hcurrent hcounters hsince hticks => ⟨hcurrent, hcounters, hsince, Nat.le_of_eq hticks.symm⟩
  cases hs with
  | tickCounted hresumed =>
    have := uncharged_tick hresumed (hsame (u := s) rfl rfl rfl rfl)
    exact .inl ⟨this.current, this.counters, this.since, this.forward⟩
  | switchContext s' hpend hs' =>
    obtain ⟨hsuspended, rfl⟩ | ⟨-, t, r, -, hs'⟩ := vTaskSwitchContext_cases hs'
    · exact .inl (hsame rfl rfl rfl rfl)
    · rw [hs']
      exact .inr ⟨rfl, rfl, rfl⟩
  | resumeYielding hat hsuspended hyield =>
    have := uncharged_resume hcount
    exact .inl ⟨this.current, this.counters, this.since, this.forward⟩
  | resume thenYield hat hsuspended hyield => exact .inl (uncharged_resume hcount)
  | tickPended | wakeReady | wakeHeld | unlockHeld | suspend | delay | place | delayPlaced | yield | delete | cleanUp =>
    exact .inl (hsame rfl rfl rfl rfl)

/-! ## The counters add up -/

omit [DecidableEq ε] in
/-- A switch brings every counter up to date. -/
theorem toNat_charged (hclock : s.delayed.xTickCount.toNat = s.ticks) (h : Charged s) (t : τ) :
    (charged s t).toNat = runTime t s := by
  obtain ⟨hsince, hcounters⟩ := h
  have hlt := s.delayed.xTickCount.toNat_lt
  have hcounter := hcounters s.pxCurrentTCB
  rw [charged, runTime]
  by_cases hlater : s.delayed.xTickCount > s.ulTaskSwitchedInTime
  · have hsub := UInt32.toNat_sub_of_le _ _ (UInt32.le_of_lt hlater)
    rw [if_pos hlater]
    by_cases ht : s.pxCurrentTCB = t
    · subst ht
      rw [Function.update_self, if_pos rfl, UInt32.toNat_add, hsub, hclock, Nat.mod_eq_of_lt (by omega)]
    · rw [Function.update_of_ne (Ne.symm ht), if_neg ht, Nat.add_zero]
  · have hnow : s.ticks - s.ulTaskSwitchedInTime.toNat = 0 := by
      have := UInt32.le_iff_toNat_le.mp (UInt32.not_lt.mp hlater)
      omega
    rw [if_neg hlater, hnow, ite_self, Nat.add_zero]

theorem charged_step (hclock : s.delayed.xTickCount.toNat = s.ticks) (hcount : 0 < s.uxCurrentNumberOfTasks)
    (h : Charged s) (hs : step idle s e = some s') :
    s.ticks ≤ s'.ticks ∧ Charged s' ∧ ∀ t, runTime t s' = runTime t s + counted idle t s e := by
  obtain ⟨hsince, hcounters⟩ := h
  have hcounted : ∀ t, counted idle t s e = if s.pxCurrentTCB = t then s'.ticks - s.ticks else 0 := by
    intro t
    rw [counted, hs]
  rcases charges_cases hcount (step_cases hs) with huncharged | ⟨hcharged, hswitched, hticks⟩
  · have hforward := huncharged.forward
    refine ⟨hforward, ⟨?_, ?_⟩, ?_⟩
    · rw [huncharged.since]
      exact hsince.trans hforward
    · rw [huncharged.since, huncharged.counters]
      exact hcounters
    · intro t
      rw [hcounted, runTime, runTime, huncharged.current, huncharged.counters, huncharged.since]
      split
      · omega
      · rfl
  · have hcurrent := toNat_charged hclock ⟨hsince, hcounters⟩
    refine ⟨Nat.le_of_eq hticks.symm, ⟨?_, ?_⟩, ?_⟩
    · rw [hswitched, hclock, hticks]
    · intro t
      rw [hcharged, hswitched, hcurrent, hclock, runTime]
      have := hcounters t
      split
      · omega
      · omega
    · intro t
      rw [hcounted, runTime, hcharged, hcurrent, hswitched, hclock, hticks, Nat.sub_self, ite_self, ite_self]

omit [DecidableEq ε] in
/-- Only one task runs. -/
theorem sum_current {ts : List τ} (hnodup : ts.Nodup) (hcurrent : s.pxCurrentTCB ∈ ts) (n : Nat) :
    (ts.map (fun t => if s.pxCurrentTCB = t then n else 0)).sum = n := by
  rw [List.sum_map_eq_nsmul_single s.pxCurrentTCB, List.count_eq_one_of_mem hnodup hcurrent, one_smul, if_pos rfl]
  intro t ht _
  exact if_neg ht.symm

/-- The tasks share the time. -/
theorem shared_step {ts : List τ} (hnodup : ts.Nodup) (hcurrent : s.pxCurrentTCB ∈ ts) (hforward : s.ticks ≤ s'.ticks)
    (hrun : ∀ t, runTime t s' = runTime t s + counted idle t s e) (hs : step idle s e = some s')
    (h : (ts.map (runTime · s)).sum = s.ticks) : (ts.map (runTime · s')).sum = s'.ticks := by
  have hcounted : (ts.map (counted idle · s e)).sum = s'.ticks - s.ticks := by
    simp only [counted, hs]
    exact sum_current hnodup hcurrent _
  rw [List.map_congr_left (fun t _ => hrun t), List.sum_map_add, h, hcounted]
  omega

/-- What holds along a run whose ticks have not wrapped. -/
structure Accounted (idle : τ) (ts : List τ) (s : State τ ε uxPriority) : Prop where
  good : Good idle s
  clocked : ∃ c, Clocked s c
  places_le : places s ≤ ts
  charged : Charged s
  shared : (ts.map (runTime · s)).sum = s.ticks

theorem accounted_step {ts : List τ} (hnodup : ts.Nodup) (h : Accounted idle ts s) (hticks : s.ticks < 2 ^ 32)
    (hs : step idle s e = some s') :
    Accounted idle ts s' ∧ ∀ t, runTime t s' = runTime t s + counted idle t s e := by
  obtain ⟨hgood, ⟨c, hc⟩, hle, hcharged, hshared⟩ := h
  obtain ⟨c', hc'⟩ := advances_step hgood hc (step_cases hs)
  have hclock : s.delayed.xTickCount.toNat = s.ticks := by
    rw [hc.1.tick, hc.2, Nat.mod_eq_of_lt hticks]
  obtain ⟨hforward, hcharged', hrun⟩ := charged_step hclock hgood.filed.count_pos hcharged hs
  have hcurrent : s.pxCurrentTCB ∈ ts := Multiset.mem_coe.mp (Multiset.mem_of_le hle hgood.filed.current)
  refine ⟨⟨good_step hgood (step_cases hs), ⟨c', hc'.clocked⟩, (places_step_le hgood hs).trans hle, hcharged', ?_⟩, hrun⟩
  exact shared_step hnodup hcurrent hforward hrun hs hshared

theorem accounted_start {t : τ} {ts : List τ} (hnodup : (t :: ts).Nodup) (hidle : idle ∈ t :: ts) :
    Accounted idle (t :: ts) (start t ts : State τ ε uxPriority) ∧
      ∀ u, runTime u (start t ts : State τ ε uxPriority) = 0 := by
  obtain ⟨hgood, hplaces⟩ := @good_start τ ε uxPriority idle t ts hnodup hidle
  obtain ⟨c, hstart, -⟩ := @start_eq τ ε uxPriority t ts
  have hzero : ∀ u, runTime u (start t ts : State τ ε uxPriority) = 0 := by
    intro u
    rw [hstart]
    exact (Nat.zero_add _).trans (ite_self _)
  refine ⟨⟨hgood, clocked_exec hnodup hidle (exec_nil _), le_of_eq hplaces, ?_, ?_⟩, hzero⟩
  · rw [hstart]
    exact ⟨Nat.le_refl _, fun _ => Nat.le_refl _⟩
  · rw [List.map_congr_left (fun u _ => hzero u), List.map_const', List.sum_replicate, smul_zero, hstart]
    rfl

/-- **The run time the monitor reports.** -/
theorem run_time_exact {t : τ} {ts : List τ} (hnodup : (t :: ts).Nodup) (hidle : idle ∈ t :: ts) {es : List (Event ε)}
    (h : exec (step idle) (start t ts : State τ ε uxPriority) es = some s) (hticks : s.ticks < 2 ^ 32) :
    (∀ u, (s.ulRunTimeCounter u).toNat +
        (if s.pxCurrentTCB = u then s.ticks - s.ulTaskSwitchedInTime.toNat else 0) =
      ran idle u (start t ts : State τ ε uxPriority) es) ∧
    ((t :: ts).map (fun u => (s.ulRunTimeCounter u).toNat)).sum = s.ulTaskSwitchedInTime.toNat := by
  have hbounded : Always (step idle) (fun u => u.ticks < 2 ^ 32) (start t ts : State τ ε uxPriority) es := by
    refine always_of_last (I := fun u => Good idle u ∧ ∃ c, Clocked u c) ?_ h
      ⟨(good_start hnodup hidle).1, clocked_exec hnodup hidle (exec_nil _)⟩ hticks
    rintro u e v ⟨hgood, c, hc⟩ hs
    obtain ⟨c', hc'⟩ := advances_step hgood hc (step_cases hs)
    exact ⟨⟨good_step hgood (step_cases hs), c', hc'.clocked⟩, lt_of_le_of_lt hc'.forward⟩
  obtain ⟨hstart, hzero⟩ := @accounted_start τ ε uxPriority _ _ idle t ts hnodup hidle
  have hguard := allSteps_of_always hbounded (allSteps_of_forall (G := fun _ _ => True) (fun _ _ _ => trivial) _)
  have hran : ∀ u, runTime u s = ran idle u (start t ts : State τ ε uxPriority) es := by
    intro u
    have := sumSteps_eq (I := Accounted idle (t :: ts)) (w := counted idle u) (μ := runTime u) (by
      intro v e v' haccounted hg hs
      obtain ⟨haccounted', hrun⟩ := accounted_step hnodup haccounted hg.2.1 hs
      exact ⟨haccounted', hrun u⟩) h hguard hstart
    rw [this, hzero, Nat.zero_add, ran]
  have haccounted : Accounted idle (t :: ts) s :=
    exec_inv_of (fun v e v' haccounted hg hs => (accounted_step hnodup haccounted hg.2.1 hs).1) h hguard hstart
  refine ⟨hran, ?_⟩
  -- all of the time has been run by someone, and what no counter holds yet by the running task
  have hcurrent : s.pxCurrentTCB ∈ t :: ts :=
    Multiset.mem_coe.mp (Multiset.mem_of_le haccounted.places_le haccounted.good.filed.current)
  have hshared := haccounted.shared
  have hsince := haccounted.charged.1
  simp only [runTime, List.sum_map_add, sum_current hnodup hcurrent] at hshared
  omega

/-- The tick that comes in the sensor's suspended section is the sensor's. -/
theorem run_time_exact_two :
    ∃ s, exec (step .idle) (start .sensor [.updateN, .idle] : State Task Waiting Task.uxPriority)
        [.tick, .pendSV, .suspend, .tick, .resume false, .pendSV] = some s ∧
      s.pxCurrentTCB = .updateN ∧ s.ulRunTimeCounter .sensor = 1 ∧ s.ulRunTimeCounter .updateN = 1 ∧
      ran .idle .sensor (start .sensor [.updateN, .idle] : State Task Waiting Task.uxPriority)
        [.tick, .pendSV, .suspend, .tick, .resume false, .pendSV] = 1 := by
  have hrun : exec (step .idle) (start .sensor [.updateN, .idle] : State Task Waiting Task.uxPriority)
      [.tick, .pendSV, .suspend, .tick, .resume false, .pendSV] = some _ := rfl
  exact ⟨_, hrun, rfl, rfl, rfl, ((run_time_exact (by decide) (by decide) hrun (by decide)).1 .sensor).symm⟩

end WindowFilter.Scheduler
