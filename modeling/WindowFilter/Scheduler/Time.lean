import WindowFilter.Scheduler.Running

/- Time. The delayed lists of a whole run are an alarm clock over unbounded time that shows
   the ticks counted so far (`clocked_exec`), suspended sections and the wrap of the 32-bit
   count included. From this:

   * `ticks_counted`: no tick interrupt is lost, whoever suspends the scheduler.
   * `delay_exact`: a task in `vTaskDelay` is blocked until its time, and ready at it.
   * `wait_bounded`: a task that waits for an event is woken by its timeout at the latest. -/
namespace WindowFilter.Scheduler
open Steps

variable {τ ε : Type} {uxPriority : τ → Priority}

/-- The delayed lists show the clock `c`, which shows the ticks counted. -/
def Clocked (s : State τ ε uxPriority) (c : Alarm τ) : Prop := s.delayed.Refines c ∧ c.now = s.ticks

/-- From `s`, whose clock is `c`, to `s'`: an alarm is still set, or its task is ready, before
its time only if it was in an event list. -/
structure Advances (s : State τ ε uxPriority) (c : Alarm τ) (s' : State τ ε uxPriority) (c' : Alarm τ) : Prop where
  clocked : Clocked s' c'
  forward : s.ticks ≤ s'.ticks
  kept : ∀ t due, (due, t) ∈ c.alarms →
    (due, t) ∈ c'.alarms ∨ (s'.ready.Ready t ∧ (s.events.pxContainer t = none → due ≤ s'.ticks))

variable [DecidableEq τ] [DecidableEq ε] {idle : τ} {s s' : State τ ε uxPriority} {e : Event ε} {c : Alarm τ}

/-! ## The lists are an alarm clock -/

theorem advances_tick {u : State τ ε uxPriority} {c' : Alarm τ} (hresumed : u.uxSchedulerSuspended = 0)
    (h : Advances s c u c') : Advances s c (xTaskIncrementTick u).1 c'.tick := by
  obtain ⟨hrings, htick⟩ := DelayedLists.refines_tick h.clocked.1
  have hnow := h.clocked.2
  rw [xTaskIncrementTick_eq hresumed]
  refine ⟨⟨htick, congrArg (· + 1) hnow⟩, Nat.le_succ_of_le h.forward, ?_⟩
  intro t due ha
  rcases h.kept t due ha with ha' | ⟨hready, hfree⟩
  · by_cases hdue : c'.now + 1 < due
    · exact .inl (Alarm.tick_alarms_iff.mpr ⟨ha', hdue⟩)
    · have hahead : c'.now < due := c'.ahead _ ha'
      have hdue : due = c'.now + 1 := by omega
      subst hdue
      refine .inr ⟨ReadyLists.ready_addAll.mpr (.inl ?_), fun _ => Nat.le_of_eq (congrArg (· + 1) hnow)⟩
      rw [hrings]
      exact Alarm.rings_iff.mpr ha'
  · exact .inr ⟨ReadyLists.ready_addAll.mpr (.inr hready), fun hnone => Nat.le_succ_of_le (hfree hnone)⟩

/-- Tasks of event lists become ready, and `xNextTaskUnblockTime` is reset or not. -/
theorem advances_wakeAll (h : Clocked s c) {ts : List τ} (hts : ∀ t ∈ ts, s.events.pxContainer t ≠ none)
    {d : DelayedLists τ} (hd : d = s.delayed.removeAll ts ∨ d = (s.delayed.removeAll ts).prvResetNextTaskUnblockTime) :
    Advances s c { wakeAll ts s with delayed := d } (c.cancelAll ts) := by
  have hremoved := DelayedLists.refines_removeAll h.1 ts
  refine ⟨⟨?_, (Alarm.cancelAll_now _ _).trans h.2⟩, Nat.le_refl _, ?_⟩
  · rcases hd with rfl | rfl
    · exact hremoved
    · exact DelayedLists.refines_reset hremoved
  · intro t due ha
    by_cases ht : t ∈ ts
    · exact .inr ⟨ReadyLists.ready_addAll.mpr (.inl ht), fun hnone => absurd hnone (hts t ht)⟩
    · exact .inl (Alarm.cancelAll_alarms_iff.mpr ⟨ha, ht⟩)

theorem advances_resume (h : Clocked s c) (hcount : 0 < s.uxCurrentNumberOfTasks) :
    ∃ c', Advances s c (xTaskResumeAll s).1 c' := by
  by_cases hlast : s.uxSchedulerSuspended ≤ 1
  · have hpending : ∀ t ∈ s.events.lists .xPendingReadyList, s.events.pxContainer t ≠ none := by
      intro t ht
      rw [(s.events.contained _ t).mp ht]
      exact Option.some_ne_none _
    have hreleased : Advances s c (released s) (c.cancelAll (s.events.lists .xPendingReadyList)) := by
      have := advances_wakeAll h hpending (d := (released s).delayed) (by
        simp only [released]
        split
        · exact .inl rfl
        · exact .inr rfl)
      exact ⟨this.clocked, this.forward, this.kept⟩
    obtain ⟨c', hc'⟩ := countPended_inv (I := fun u => ∃ c', Advances s c u c') (by
      rintro u hu ⟨c', hc'⟩
      have := advances_tick hu hc'
      exact ⟨c'.tick, this.clocked, this.forward, this.kept⟩) s.xPendedTicks.toNat rfl ⟨_, hreleased⟩
    rw [xTaskResumeAll_last hcount hlast]
    exact ⟨c', hc'.clocked, hc'.forward, hc'.kept⟩
  · rw [xTaskResumeAll_nested (by omega)]
    exact ⟨c, h, Nat.le_refl _, fun _ _ ha => .inl ha⟩

omit [DecidableEq ε] in
theorem advances_block (h : Clocked s c) {xTicksToWait : UInt32} (hpos : 0 < xTicksToWait.toNat) :
    Advances s c (prvAddCurrentTaskToDelayedList xTicksToWait s) (c.set s.pxCurrentTCB xTicksToWait.toNat hpos) :=
  ⟨⟨DelayedLists.refines_add h.1 _ hpos, h.2⟩, Nat.le_refl _, fun _ _ ha => .inl (Alarm.set_alarms_iff.mpr (.inr ha))⟩

/-- **Every step is one of the alarm clock's.** -/
theorem advances_step (hgood : Good idle s) (h : Clocked s c) (hs : Step idle s e s') : ∃ c', Advances s c s' c' := by
  have hcount := hgood.filed.count_pos
  have hstays : ∀ {u : State τ ε uxPriority}, u.delayed = s.delayed → u.ticks = s.ticks →
      ∃ c', Advances s c u c' := by
    intro u hu hticks
    refine ⟨c, ⟨?_, h.2.trans hticks.symm⟩, Nat.le_of_eq hticks.symm, fun _ _ ha => .inl ha⟩
    rw [hu]
    exact h.1
  cases hs with
  | tickCounted hresumed =>
    have := advances_tick hresumed (s := s) ⟨h, Nat.le_refl _, fun _ _ ha => .inl ha⟩
    exact ⟨c.tick, this.clocked, this.forward, this.kept⟩
  | tickPended hsuspended => exact hstays rfl rfl
  | switchContext s' hpend hs' =>
    obtain ⟨hsuspended, rfl⟩ | ⟨-, r, rs, -, hs'⟩ := vTaskSwitchContext_cases hs'
    · exact hstays rfl rfl
    · rw [hs']
      exact hstays rfl rfl
  | wakeReady l u us hl hresumed =>
    have hwaits : ∀ v ∈ [u], s.events.pxContainer v ≠ none := by
      intro v hv
      rw [List.mem_singleton.mp hv, (s.events.contained _ u).mp (hl ▸ List.mem_cons_self)]
      exact Option.some_ne_none _
    have := advances_wakeAll h hwaits (.inl rfl)
    exact ⟨_, this.clocked, this.forward, this.kept⟩
  | wakeHeld l u us hl hsuspended => exact hstays rfl rfl
  | unlockHeld l u us hl hsuspended => exact hstays rfl rfl
  | suspend hat => exact hstays rfl rfl
  | resumeYielding hat hsuspended hyield =>
    obtain ⟨c', hc'⟩ := advances_resume h hcount
    exact ⟨c', hc'.clocked, hc'.forward, hc'.kept⟩
  | resume thenYield hat hsuspended hyield => exact advances_resume h hcount
  | delay xTicksToDelay hblock => exact ⟨_, advances_block h hblock.2.2.1⟩
  | place l xTicksToWait hblock => exact hstays rfl rfl
  | delayPlaced xTicksToWait hpc hpend =>
    obtain ⟨-, -, -, hpos, -⟩ := hgood.filed.placed _ _ hpc
    have := advances_block h hpos
    exact ⟨_, this.clocked, this.forward, this.kept⟩
  | yield hat => exact hstays rfl rfl
  | delete hat hresumed hidle => exact hstays rfl rfl
  | cleanUp hat hidle hpos => exact hstays rfl rfl

theorem clocked_exec {t : τ} {ts : List τ} (hnodup : (t :: ts).Nodup) (hidle : idle ∈ t :: ts) {es : List (Event ε)}
    (h : exec (step idle) (start t ts : State τ ε uxPriority) es = some s) : ∃ c, Clocked s c := by
  have hstart : Clocked (start t ts : State τ ε uxPriority) (Alarm.silent 0) := by
    obtain ⟨u, hu, -⟩ := @start_eq τ ε uxPriority t ts
    rw [hu]
    exact ⟨DelayedLists.refines_start, rfl⟩
  refine (exec_inv (I := fun s => Good idle s ∧ ∃ c, Clocked s c) ?_ h ⟨(good_start hnodup hidle).1, _, hstart⟩).2
  rintro u e u' ⟨hgood, c, hc⟩ hs
  obtain ⟨c', hc'⟩ := advances_step hgood hc (step_cases hs)
  exact ⟨good_step hgood (step_cases hs), c', hc'.clocked⟩

/-! ## No tick is lost -/

theorem countPended_xTickCount (n : Nat) (hresumed : s.uxSchedulerSuspended = 0) :
    (countPended n s).delayed.xTickCount = s.delayed.xTickCount + UInt32.ofNat n := by
  induction n generalizing s with
  | zero => exact (UInt32.add_zero _).symm
  | succ n ih =>
    have heq := xTaskIncrementTick_eq hresumed
    rw [countPended, ih (by rw [heq]; exact hresumed)]
    simp only [heq, DelayedLists.tick_xTickCount]
    rw [UInt32.add_assoc, UInt32.add_comm 1, UInt32.ofNat_add]
    rfl

/-- The ticks the kernel knows of, counted or not. -/
def known (s : State τ ε uxPriority) : UInt32 := s.delayed.xTickCount + s.xPendedTicks

theorem known_resume (hcount : 0 < s.uxCurrentNumberOfTasks) : known (xTaskResumeAll s).1 = known s := by
  by_cases hlast : s.uxSchedulerSuspended ≤ 1
  · have hreleased : (released s).delayed.xTickCount = s.delayed.xTickCount := by
      rw [← DelayedLists.removeAll_xTickCount s.delayed (s.events.lists .xPendingReadyList)]
      simp only [released]
      split
      · rfl
      · rfl
    rw [xTaskResumeAll_last hcount hlast, known, known]
    simp only [countPended_xTickCount (s := released s) _ rfl, hreleased, UInt32.ofNat_toNat, UInt32.add_zero]
  · rw [xTaskResumeAll_nested (by omega)]
    rfl

theorem known_step (hgood : Good idle s) (hs : Step idle s e s') :
    known s' = known s + if e = .tick then 1 else 0 := by
  have hcount := hgood.filed.count_pos
  cases hs with
  | tickCounted hresumed =>
    rw [xTaskIncrementTick_eq hresumed, known, known]
    simp only [DelayedLists.tick_xTickCount, if_true]
    rw [UInt32.add_assoc, UInt32.add_comm 1, ← UInt32.add_assoc]
  | tickPended hsuspended => exact (UInt32.add_assoc _ _ _).symm
  | switchContext s' hpend hs' =>
    obtain ⟨hsuspended, rfl⟩ | ⟨-, r, rs, -, hs'⟩ := vTaskSwitchContext_cases hs'
    · exact (UInt32.add_zero _).symm
    · rw [hs']
      exact (UInt32.add_zero _).symm
  | wakeReady l u us hl hresumed => exact (UInt32.add_zero _).symm
  | wakeHeld l u us hl hsuspended => exact (UInt32.add_zero _).symm
  | unlockHeld l u us hl hsuspended => exact (UInt32.add_zero _).symm
  | suspend hat => exact (UInt32.add_zero _).symm
  | resumeYielding hat hsuspended hyield => exact (known_resume hcount).trans (UInt32.add_zero _).symm
  | resume thenYield hat hsuspended hyield => exact (known_resume hcount).trans (UInt32.add_zero _).symm
  | delay xTicksToDelay hblock =>
    rw [known, prvAddCurrentTaskToDelayedList, DelayedLists.add_xTickCount]
    exact (UInt32.add_zero _).symm
  | place l xTicksToWait hblock => exact (UInt32.add_zero _).symm
  | delayPlaced xTicksToWait hpc hpend =>
    rw [known, setPc, prvAddCurrentTaskToDelayedList, DelayedLists.add_xTickCount]
    exact (UInt32.add_zero _).symm
  | yield hat => exact (UInt32.add_zero _).symm
  | delete hat hresumed hidle => exact (UInt32.add_zero _).symm
  | cleanUp hat hidle hpos => exact (UInt32.add_zero _).symm

theorem known_exec {t : τ} {ts : List τ} (hnodup : (t :: ts).Nodup) (hidle : idle ∈ t :: ts) {es : List (Event ε)}
    (h : exec (step idle) (start t ts : State τ ε uxPriority) es = some s) :
    known s = UInt32.ofNat (es.count .tick) := by
  induction es using List.reverseRecOn generalizing s with
  | nil =>
    cases h
    obtain ⟨u, hu, -⟩ := @start_eq τ ε uxPriority t ts
    rw [hu]
    rfl
  | append_singleton es e ih =>
    obtain ⟨u, hu, hs⟩ := exec_snoc.mp h
    rw [known_step (good_exec hnodup hidle hu) (step_cases hs), ih hu, List.count_append, List.count_singleton,
      UInt32.ofNat_add]
    by_cases he : e = .tick
    · simp [he]
    · simp [he]

/-- **No tick is lost.** -/
theorem ticks_counted {t : τ} {ts : List τ} (hnodup : (t :: ts).Nodup) (hidle : idle ∈ t :: ts) {es : List (Event ε)}
    (h : exec (step idle) (start t ts : State τ ε uxPriority) es = some s) :
    s.delayed.xTickCount + s.xPendedTicks = UInt32.ofNat (es.count .tick) ∧
      s.delayed.xTickCount.toNat = s.ticks % 2 ^ 32 ∧
      s.delayed.xNumOfOverflows.toNat = s.ticks / 2 ^ 32 % 2 ^ 32 ∧
      (s.uxSchedulerSuspended = 0 → s.delayed.xTickCount = UInt32.ofNat (es.count .tick)) := by
  obtain ⟨c, hrefines, hnow⟩ := clocked_exec hnodup hidle h
  have hknown := known_exec hnodup hidle h
  refine ⟨hknown, hnow ▸ hrefines.tick, hnow ▸ hrefines.overflows, ?_⟩
  intro hresumed
  rw [← hknown, known, ((good_exec hnodup hidle h).settled hresumed).1, UInt32.add_zero]

/-- Two ticks come while the scheduler is suspended. -/
theorem ticks_counted_suspended :
    ∃ s, exec (step .idle) firmware [.tick, .suspend, .tick, .tick, .resume false] = some s ∧
      s.uxSchedulerSuspended = 0 ∧ s.delayed.xTickCount = 3 := by
  have hrun : exec (step .idle) firmware [.tick, .suspend, .tick, .tick, .resume false] = some _ := rfl
  exact ⟨_, hrun, rfl, (ticks_counted (by decide) (by decide) hrun).2.2.2 rfl⟩

/-! ## A delayed task is woken in time -/

/-- An alarm is set for `t` at the tick `due`. -/
def Sleeping (s : State τ ε uxPriority) (t : τ) (due : Nat) : Prop := ∃ c, Clocked s c ∧ (due, t) ∈ c.alarms

omit [DecidableEq τ] [DecidableEq ε] in
theorem Sleeping.blocked {t : τ} {due : Nat} (h : Sleeping s t due) : t ∈ s.delayed.owners ∧ s.ticks < due := by
  obtain ⟨c, ⟨hrefines, hnow⟩, ha⟩ := h
  exact ⟨hrefines.mem_owners.mpr ⟨due, ha⟩, hnow ▸ c.ahead _ ha⟩

omit [DecidableEq ε] in
/-- The task that blocks sleeps for the ticks it asked for. -/
theorem sleeping_block (h : ∃ c, Clocked s c) {xTicksToWait : UInt32} (hpos : 0 < xTicksToWait.toNat) :
    Sleeping (prvAddCurrentTaskToDelayedList xTicksToWait s) s.pxCurrentTCB (s.ticks + xTicksToWait.toNat) := by
  obtain ⟨c, hc⟩ := h
  refine ⟨_, (advances_block hc hpos).clocked, Alarm.set_alarms_iff.mpr (.inl ?_)⟩
  rw [hc.2]

theorem sleeping_step {t : τ} {due : Nat} (hgood : Good idle s) (h : Sleeping s t due) (hs : Step idle s e s') :
    Sleeping s' t due ∨ (s'.ready.Ready t ∧ (s.events.pxContainer t = none → due ≤ s'.ticks)) := by
  obtain ⟨c, hc, ha⟩ := h
  obtain ⟨c', hc'⟩ := advances_step hgood hc hs
  exact (hc'.kept t due ha).imp (fun ha' => ⟨c', hc'.clocked, ha'⟩) id

/-- `xTaskResumeAll` puts no task in an event list. -/
theorem container_resume (hcount : 0 < s.uxCurrentNumberOfTasks) (t : τ) :
    (xTaskResumeAll s).1.events.pxContainer t = none ∨
      (xTaskResumeAll s).1.events.pxContainer t = s.events.pxContainer t := by
  have hremoved : ∀ (u : EventLists τ ε) (ts : List τ),
      (u.removeAll ts).pxContainer t = none ∨ (u.removeAll ts).pxContainer t = u.pxContainer t := by
    intro u ts
    rw [EventLists.removeAll_container]
    split
    · exact .inl rfl
    · exact .inr rfl
  by_cases hlast : s.uxSchedulerSuspended ≤ 1
  · rw [xTaskResumeAll_last hcount hlast]
    refine countPended_inv
      (I := fun u => u.events.pxContainer t = none ∨ u.events.pxContainer t = s.events.pxContainer t) ?_ _
      (s := released s) rfl (hremoved s.events _)
    intro u hu hcontainer
    rw [xTaskIncrementTick_eq hu]
    rcases hremoved u.events u.delayed.xTaskIncrementTick.1 with hnone | hsame
    · exact .inl hnone
    · exact hcontainer.imp hsame.trans hsame.trans
  · rw [xTaskResumeAll_nested (by omega)]
    exact .inr rfl

/-- A task that is blocked and in no event list is put in none. -/
theorem free_step {t : τ} (hgood : Good idle s) (hblocked : t ∈ s.delayed.owners)
    (hfree : s.events.pxContainer t = none) (hs : Step idle s e s') : s'.events.pxContainer t = none := by
  have hcount := hgood.filed.count_pos
  have hheld : ∀ u, s.events.pxContainer u ≠ none → (holdPending u s).events.pxContainer t = none := by
    intro u hu
    have hne : t ≠ u := by
      rintro rfl
      exact hu hfree
    simpa only [holdPending, EventLists.hold, EventLists.insertPending_container, if_neg hne, EventLists.remove_container_of_ne _ hne]
      using hfree
  have hhead : ∀ {l u us}, s.events.lists (.event l) = u :: us → s.events.pxContainer u ≠ none := by
    intro l u us hl
    rw [(s.events.contained _ u).mp (hl ▸ List.mem_cons_self)]
    exact Option.some_ne_none _
  have hremoved : ∀ ts, (s.events.removeAll ts).pxContainer t = none := by
    intro ts
    rw [EventLists.removeAll_container, hfree, ite_self]
  cases hs with
  | tickCounted hresumed =>
    rw [xTaskIncrementTick_eq hresumed]
    exact hremoved _
  | tickPended hsuspended => exact hfree
  | switchContext s' hpend hs' =>
    obtain ⟨hsuspended, rfl⟩ | ⟨-, r, rs, -, hs'⟩ := vTaskSwitchContext_cases hs'
    · exact hfree
    · rw [hs']
      exact hfree
  | wakeReady l u us hl hresumed => exact hremoved _
  | wakeHeld l u us hl hsuspended => exact hheld u (hhead hl)
  | unlockHeld l u us hl hsuspended => exact hheld u (hhead hl)
  | suspend hat => exact hfree
  | resumeYielding hat hsuspended hyield => exact (container_resume hcount t).elim id (fun h => h.trans hfree)
  | resume thenYield hat hsuspended hyield => exact (container_resume hcount t).elim id (fun h => h.trans hfree)
  | delay xTicksToDelay hblock => exact hfree
  | place l xTicksToWait hblock =>
    -- the task that is placed is ready
    have hne : t ≠ s.pxCurrentTCB := by
      rintro rfl
      exact hgood.filed.not_delayed hblock.2.2.2.1 hblocked
    simpa only [setPc, EventLists.insert_container, if_neg hne] using hfree
  | delayPlaced xTicksToWait hpc hpend => exact hfree
  | yield hat => exact hfree
  | delete hat hresumed hidle =>
    by_cases ht : t = s.pxCurrentTCB
    · subst ht
      exact EventLists.remove_container _ _
    · exact (EventLists.remove_container_of_ne _ ht).trans hfree
  | cleanUp hat hidle hpos => exact hfree

/-- Until its time has come, a task that sleeps outside the event lists does so in every
state of the run. -/
theorem asleep_exec {t : τ} {due : Nat} (hgood : Good idle s) (h : Sleeping s t due)
    (hfree : s.events.pxContainer t = none) {es : List (Event ε)} (hrun : exec (step idle) s es = some s') :
    Good idle s' ∧ (∃ c, Clocked s' c) ∧
      (s'.ticks < due → Sleeping s' t due ∧ s'.events.pxContainer t = none) := by
  refine exec_inv (I := fun u => Good idle u ∧ (∃ c, Clocked u c) ∧
    (u.ticks < due → Sleeping u t due ∧ u.events.pxContainer t = none)) ?_ hrun ⟨hgood, ⟨_, h.choose_spec.1⟩, fun _ => ⟨h, hfree⟩⟩
  rintro u e v ⟨hu, ⟨c, hc⟩, hasleep⟩ hstep
  have hs := step_cases hstep
  obtain ⟨c', hc'⟩ := advances_step hu hc hs
  refine ⟨good_step hu hs, ⟨c', hc'.clocked⟩, ?_⟩
  intro hbefore
  obtain ⟨hsleeping, hnone⟩ := hasleep (Nat.lt_of_le_of_lt hc'.forward hbefore)
  refine ⟨(sleeping_step hu hsleeping hs).resolve_right ?_, free_step hu hsleeping.blocked.1 hnone hs⟩
  rintro ⟨-, hdue⟩
  exact absurd (hdue hnone) (Nat.not_le.mpr hbefore)

/-- The task that calls `vTaskDelay` sleeps, and waits for no event. -/
theorem asleep_delay {d : UInt32} (hgood : Good idle s) (hclock : ∃ c, Clocked s c)
    (hdelay : step idle s (.delay d) = some s') :
    Good idle s' ∧ Sleeping s' s.pxCurrentTCB (s.ticks + d.toNat) ∧ s'.events.pxContainer s.pxCurrentTCB = none := by
  refine ⟨good_step hgood (step_cases hdelay), ?_⟩
  cases step_cases hdelay with
  | delay _ hblock => exact ⟨sleeping_block hclock hblock.2.2.1, hblock.2.2.2.2.2⟩

/-- **A delay is exact.** The task that calls `vTaskDelay` for `d` ticks is blocked as long as
fewer have been counted, and the step that counts the last of them makes it ready. -/
theorem delay_exact {t : τ} {ts : List τ} (hnodup : (t :: ts).Nodup) (hidle : idle ∈ t :: ts)
    {es₀ es : List (Event ε)} {s₀ s₁ : State τ ε uxPriority} {d : UInt32}
    (h₀ : exec (step idle) (start t ts) es₀ = some s₀) (hdelay : step idle s₀ (.delay d) = some s₁)
    (hrun : exec (step idle) s₁ es = some s) (hbefore : s.ticks < s₀.ticks + d.toNat) :
    s₀.pxCurrentTCB ∈ s.delayed.owners ∧ ¬ s.ready.Ready s₀.pxCurrentTCB ∧
      ∀ e s', step idle s e = some s' → s₀.ticks + d.toNat ≤ s'.ticks → s'.ready.Ready s₀.pxCurrentTCB := by
  obtain ⟨hgood₁, hsleeping₁, hfree₁⟩ :=
    asleep_delay (good_exec hnodup hidle h₀) (clocked_exec hnodup hidle h₀) hdelay
  obtain ⟨hgood, -, hasleep⟩ := asleep_exec hgood₁ hsleeping₁ hfree₁ hrun
  obtain ⟨hsleeping, hfree⟩ := hasleep hbefore
  obtain ⟨hblocked, -⟩ := hsleeping.blocked
  refine ⟨hblocked, fun hready => hgood.filed.not_delayed hready hblocked, ?_⟩
  intro e s' hs hdue
  rcases sleeping_step hgood hsleeping (step_cases hs) with hsleeping' | ⟨hready, -⟩
  · exact absurd hsleeping'.blocked.2 (Nat.not_lt.mpr hdue)
  · exact hready

/-- The receiver delays for two ticks. -/
theorem delay_exact_two :
    ∃ s₀ s₁ s s', exec (step .idle) firmware [.suspend] = some s₀ ∧ step .idle s₀ (.delay 2) = some s₁ ∧
      exec (step .idle) s₁ [.resume true, .yield, .pendSV, .tick] = some s ∧ step .idle s .tick = some s' ∧
      Task.receiver ∈ s.delayed.owners ∧ s'.ready.Ready .receiver := by
  obtain ⟨hblocked, -, hready⟩ := @delay_exact Task Waiting Task.uxPriority _ _ .idle _ .sensor createdAfter
    (by decide) (by decide) [.suspend] [.resume true, .yield, .pendSV, .tick] _ _ 2 rfl rfl rfl (by decide)
  exact ⟨_, _, _, _, rfl, rfl, rfl, rfl, hblocked, hready .tick _ rfl (by decide)⟩

/-- **A wait is bounded.** A task that puts itself on an event list with `xTicksToWait` sleeps,
or has been ready again since, until that many ticks have been counted; after them it has
been ready again. -/
theorem wait_bounded {t : τ} {ts : List τ} (hnodup : (t :: ts).Nodup) (hidle : idle ∈ t :: ts)
    {es₀ es : List (Event ε)} {s₀ s₁ : State τ ε uxPriority} {xTicksToWait : UInt32}
    (h₀ : exec (step idle) (start t ts) es₀ = some s₀) (hpc : s₀.pc s₀.pxCurrentTCB = .placed xTicksToWait)
    (hblock : step idle s₀ .delayPlaced = some s₁) (hrun : exec (step idle) s₁ es = some s)
    (hdue : s₀.ticks + xTicksToWait.toNat ≤ s.ticks) :
    ∃ bs u, bs <+: es ∧ exec (step idle) s₁ bs = some u ∧ u.ready.Ready s₀.pxCurrentTCB := by
  have hgood₀ := good_exec hnodup hidle h₀
  have hgood₁ := good_step hgood₀ (step_cases hblock)
  have hsleeping₁ : Sleeping s₁ s₀.pxCurrentTCB (s₀.ticks + xTicksToWait.toNat) := by
    cases step_cases hblock with
    | delayPlaced x hx hpend =>
      rw [hpc] at hx
      cases hx
      obtain ⟨-, -, -, hpos, -⟩ := hgood₀.filed.placed _ _ hpc
      exact sleeping_block (clocked_exec hnodup hidle h₀) hpos
  have hkept : ∀ fs v, exec (step idle) s₁ fs = some v → Good idle v ∧
      (Sleeping v s₀.pxCurrentTCB (s₀.ticks + xTicksToWait.toNat) ∨
        ∃ bs u, bs <+: fs ∧ exec (step idle) s₁ bs = some u ∧ u.ready.Ready s₀.pxCurrentTCB) := by
    intro fs
    induction fs using List.reverseRecOn with
    | nil =>
      intro v hv
      cases hv
      exact ⟨hgood₁, .inl hsleeping₁⟩
    | append_singleton fs e ih =>
      intro v hv
      obtain ⟨w, hw, hs⟩ := exec_snoc.mp hv
      obtain ⟨hgood, hkept⟩ := ih w hw
      refine ⟨good_step hgood (step_cases hs), ?_⟩
      rcases hkept with hsleeping | ⟨bs, u, hbs, hu, hready⟩
      · refine (sleeping_step hgood hsleeping (step_cases hs)).imp id ?_
        rintro ⟨hready, -⟩
        exact ⟨fs ++ [e], v, List.prefix_refl _, hv, hready⟩
      · exact .inr ⟨bs, u, hbs.trans (List.prefix_append _ _), hu, hready⟩
  refine (hkept es s hrun).2.resolve_left ?_
  intro hsleeping
  exact absurd hsleeping.blocked.2 (Nat.not_lt.mpr hdue)

/-- The receiver waits for a sample for one tick at most. -/
theorem wait_bounded_one :
    ∃ s₀ s₁, exec (step .idle) firmware [.suspend, .place (.toReceive 0) 1] = some s₀ ∧
      step .idle s₀ .delayPlaced = some s₁ ∧
      ∃ bs u, bs <+: [.resume true, .yield, .pendSV, .tick] ∧ exec (step .idle) s₁ bs = some u ∧
        u.ready.Ready .receiver := by
  have hwoken := @wait_bounded Task Waiting Task.uxPriority _ _ .idle _ .sensor createdAfter (by decide) (by decide)
    [.suspend, .place (.toReceive 0) 1] [.resume true, .yield, .pendSV, .tick] _ _ 1 rfl rfl rfl rfl (by decide)
  exact ⟨_, _, rfl, rfl, hwoken⟩

end WindowFilter.Scheduler
