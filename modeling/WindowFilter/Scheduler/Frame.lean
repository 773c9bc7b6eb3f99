import WindowFilter.Scheduler.Time

/- What a step of the scheduler leaves alone. The layers above (the queues) hold facts
   about tasks that are not running; these lemmas carry such facts over a step.

   * `pc_of_ne`, `current_kept`: no program counter but the running task's moves, and only
     PendSV changes the running task.
   * `container_step`: a task enters an event list by `vTaskPlaceOnEventList` only.
   * `standing_step`: a task that is ready or waits stays so; it cannot fall out of both. -/
namespace WindowFilter.Scheduler

variable {τ ε : Type} {uxPriority : τ → Priority}

/-- A step that the running task does not take itself, or takes for another one. -/
def Interrupt : Event ε → Prop
  | .tick | .pendSV | .wake _ | .unlock _ => True
  | .suspend | .resume _ | .delay _ | .place _ _ | .delayPlaced | .yield | .delete | .cleanUp => False

/-- `t` is ready, or it is blocked and somebody will wake it. -/
def Standing (s : State τ ε uxPriority) (t : τ) : Prop :=
  s.ready.Ready t ∨ (t ∈ s.delayed.owners ∧ s.events.pxContainer t ≠ none)

variable [DecidableEq τ] [DecidableEq ε] {idle : τ} {s s' : State τ ε uxPriority} {e : Event ε}

/-! ## Program counters and the running task -/

theorem pc_of_ne (hcount : 0 < s.uxCurrentNumberOfTasks) (hs : Step idle s e s') {t : τ} (ht : t ≠ s.pxCurrentTCB) :
    s'.pc t = s.pc t := by
  obtain ⟨hcurrent, hpcs⟩ := xTaskResumeAll_frame hcount
  cases hs with
  | tickCounted hresumed => rw [xTaskIncrementTick_eq hresumed]
  | switchContext s' hpend hs' =>
    obtain ⟨-, rfl⟩ | ⟨-, u, r, -, hs'⟩ := vTaskSwitchContext_cases hs'
    · rfl
    · rw [hs']
  | resumeYielding hat hsuspended hyield =>
    rw [← hcurrent] at ht
    exact (Function.update_of_ne ht _ _).trans (congrFun hpcs t)
  | resume thenYield hat hsuspended hyield => exact congrFun hpcs t
  | place | delayPlaced | yield | delete => exact Function.update_of_ne ht _ _
  | tickPended | wakeReady | wakeHeld | unlockHeld | suspend | delay | cleanUp => rfl

theorem pc_interrupt (he : Interrupt e) (hs : Step idle s e s') : s'.pc = s.pc := by
  cases hs with
  | tickCounted hresumed => rw [xTaskIncrementTick_eq hresumed]
  | switchContext s' hpend hs' =>
    obtain ⟨-, rfl⟩ | ⟨-, u, r, -, hs'⟩ := vTaskSwitchContext_cases hs'
    · rfl
    · rw [hs']
  | tickPended | wakeReady | wakeHeld | unlockHeld => rfl
  | suspend | resumeYielding | resume | delay | place | delayPlaced | yield | delete | cleanUp => exact he.elim

/-- A task comes between the halves of `vTaskPlaceOnEventList` by the first of them only. -/
theorem placed_step (hcount : 0 < s.uxCurrentNumberOfTasks) (hs : Step idle s e s') {t : τ} {x : UInt32}
    (h : s'.pc t = .placed x) : s.pc t = .placed x ∨ ∃ k, e = .place k x ∧ t = s.pxCurrentTCB := by
  by_cases ht : t = s.pxCurrentTCB
  · subst ht
    obtain ⟨hcurrent, hpcs⟩ := xTaskResumeAll_frame hcount
    have hset : ∀ {pc : Pc}, Function.update s.pc s.pxCurrentTCB pc s.pxCurrentTCB = .placed x → pc = .placed x :=
      fun h => (Function.update_self _ _ _).symm.trans h
    cases hs with
    | tickCounted hresumed =>
      rw [xTaskIncrementTick_eq hresumed] at h
      exact .inl h
    | switchContext s' hpend hs' =>
      obtain ⟨-, rfl⟩ | ⟨-, u, r, -, hs'⟩ := vTaskSwitchContext_cases hs'
      · exact .inl h
      · rw [hs'] at h
        exact .inl h
    | resumeYielding hat hsuspended hyield =>
      rw [← hcurrent] at h
      exact absurd ((Function.update_self _ _ _).symm.trans h) nofun
    | resume thenYield hat hsuspended hyield => exact .inl ((congrFun hpcs _).symm.trans h)
    | place k y hblock =>
      cases hset h
      exact .inr ⟨k, rfl, rfl⟩
    | delayPlaced | yield | delete => exact absurd (hset h) nofun
    | tickPended | wakeReady | wakeHeld | unlockHeld | suspend | delay | cleanUp => exact .inl h
  · exact .inl ((pc_of_ne hcount hs ht).symm.trans h)

/-- Only PendSV changes the running task, and only where the scheduler is not suspended. -/
theorem current_kept (hcount : 0 < s.uxCurrentNumberOfTasks) (hs : Step idle s e s')
    (he : e ≠ .pendSV ∨ 0 < s.uxSchedulerSuspended) : s'.pxCurrentTCB = s.pxCurrentTCB := by
  obtain ⟨hcurrent, -⟩ := xTaskResumeAll_frame hcount
  cases hs with
  | tickCounted hresumed => rw [xTaskIncrementTick_eq hresumed]
  | switchContext s' hpend hs' =>
    obtain ⟨-, rfl⟩ | ⟨hresumed, -⟩ := vTaskSwitchContext_cases hs'
    · rfl
    · exact absurd hresumed (Nat.pos_iff_ne_zero.mp (he.resolve_left (· rfl)))
  | resumeYielding hat hsuspended hyield => exact hcurrent
  | resume thenYield hat hsuspended hyield => exact hcurrent
  | tickPended | wakeReady | wakeHeld | unlockHeld | suspend | delay | place | delayPlaced | yield | delete | cleanUp =>
    rfl

theorem suspended_interrupt (he : Interrupt e) (hs : Step idle s e s') :
    s'.uxSchedulerSuspended = s.uxSchedulerSuspended := by
  cases hs with
  | tickCounted hresumed => rw [xTaskIncrementTick_eq hresumed]
  | switchContext s' hpend hs' =>
    obtain ⟨-, rfl⟩ | ⟨-, u, r, -, hs'⟩ := vTaskSwitchContext_cases hs'
    · rfl
    · rw [hs']
  | tickPended | wakeReady | wakeHeld | unlockHeld => rfl
  | suspend | resumeYielding | resume | delay | place | delayPlaced | yield | delete | cleanUp => exact he.elim

/-- `xTaskResumeAll` ends one suspended section. -/
theorem suspended_resume (hcount : 0 < s.uxCurrentNumberOfTasks) :
    (xTaskResumeAll s).1.uxSchedulerSuspended = s.uxSchedulerSuspended - 1 := by
  by_cases hlast : s.uxSchedulerSuspended ≤ 1
  · rw [xTaskResumeAll_last hcount hlast]
    exact (countPended_frame _ rfl).2.2.trans (by omega)
  · rw [xTaskResumeAll_nested (by omega)]

theorem numberOfTasks_resume (hcount : 0 < s.uxCurrentNumberOfTasks) :
    (xTaskResumeAll s).1.uxCurrentNumberOfTasks = s.uxCurrentNumberOfTasks := by
  by_cases hlast : s.uxSchedulerSuspended ≤ 1
  · rw [xTaskResumeAll_last hcount hlast]
    refine countPended_inv (I := fun u => u.uxCurrentNumberOfTasks = s.uxCurrentNumberOfTasks) ?_ _ (s := released s) rfl rfl
    intro u hu hsame
    rw [xTaskIncrementTick_eq hu]
    exact hsame
  · rw [xTaskResumeAll_nested (by omega)]

/-- No task is created while the scheduler runs. -/
theorem numberOfTasks_step (hcount : 0 < s.uxCurrentNumberOfTasks) (hs : Step idle s e s') :
    s'.uxCurrentNumberOfTasks ≤ s.uxCurrentNumberOfTasks := by
  cases hs with
  | tickCounted hresumed => rw [xTaskIncrementTick_eq hresumed]
  | switchContext s' hpend hs' =>
    obtain ⟨-, rfl⟩ | ⟨-, u, r, -, hs'⟩ := vTaskSwitchContext_cases hs'
    · exact le_refl _
    · rw [hs']
  | resumeYielding hat hsuspended hyield => exact le_of_eq (numberOfTasks_resume hcount)
  | resume thenYield hat hsuspended hyield => exact le_of_eq (numberOfTasks_resume hcount)
  | cleanUp => exact Nat.sub_le _ 1
  | tickPended | wakeReady | wakeHeld | unlockHeld | suspend | delay | place | delayPlaced | yield | delete =>
    exact le_refl _

/-! ## Event lists -/

theorem container_hold {t u : τ} {l : EventList ε} (h : (holdPending t s).events.pxContainer u = some l) :
    (u = t ∧ l = .xPendingReadyList) ∨ (u ≠ t ∧ s.events.pxContainer u = some l) := by
  simp only [holdPending, EventLists.hold, EventLists.insertPending_container] at h
  split at h
  · next hu => exact .inl ⟨hu, (Option.some.inj h).symm⟩
  · next hu =>
    rw [EventLists.remove_container_of_ne _ hu] at h
    exact .inr ⟨hu, h⟩

theorem container_removeAll {es : EventLists τ ε} {ts : List τ} {u : τ} {l : EventList ε}
    (h : (es.removeAll ts).pxContainer u = some l) : es.pxContainer u = some l := by
  rw [EventLists.removeAll_container] at h
  split at h
  · cases h
  · exact h

/-- **A task enters an event list by `vTaskPlaceOnEventList` only.** -/
theorem container_step (hcount : 0 < s.uxCurrentNumberOfTasks) (hs : Step idle s e s') {t : τ} {l : EventList ε}
    (h : s'.events.pxContainer t = some l) :
    (∃ l₀, s.events.pxContainer t = some l₀ ∧ ∀ k, l = .event k → l₀ = .event k) ∨
    ∃ k x, e = .place k x ∧ t = s.pxCurrentTCB ∧ l = .event k := by
  have hsame : s.events.pxContainer t = some l → ∃ l₀, s.events.pxContainer t = some l₀ ∧ ∀ k, l = .event k → l₀ = .event k :=
    fun ht => ⟨l, ht, fun _ hk => hk⟩
  have hheld : ∀ {k u us}, s.events.lists (.event k) = u :: us → (holdPending u s).events.pxContainer t = some l →
      ∃ l₀, s.events.pxContainer t = some l₀ ∧ ∀ k, l = .event k → l₀ = .event k := by
    intro k u us hk ht
    obtain ⟨rfl, rfl⟩ | ⟨-, ht⟩ := container_hold ht
    · exact ⟨.event k, (s.events.contained _ t).mp (hk ▸ List.mem_cons_self), nofun⟩
    · exact hsame ht
  cases hs with
  | tickCounted hresumed =>
    rw [xTaskIncrementTick_eq hresumed] at h
    exact .inl (hsame (container_removeAll h))
  | switchContext s' hpend hs' =>
    obtain ⟨-, rfl⟩ | ⟨-, u, r, -, hs'⟩ := vTaskSwitchContext_cases hs'
    · exact .inl (hsame h)
    · rw [hs'] at h
      exact .inl (hsame h)
  | wakeReady k u us hk hresumed => exact .inl (hsame (container_removeAll h))
  | wakeHeld k u us hk hsuspended => exact .inl (hheld hk h)
  | unlockHeld k u us hk hsuspended => exact .inl (hheld hk h)
  | resumeYielding hat hsuspended hyield =>
    rcases container_resume hcount t with hnone | hkept
    · exact absurd (hnone.symm.trans h) nofun
    · exact .inl (hsame (hkept.symm.trans h))
  | resume thenYield hat hsuspended hyield =>
    rcases container_resume hcount t with hnone | hkept
    · exact absurd (hnone.symm.trans h) nofun
    · exact .inl (hsame (hkept.symm.trans h))
  | place k x hblock =>
    simp only [setPc, EventLists.insert_container] at h
    split at h
    · next ht => exact .inr ⟨k, x, rfl, ht, (Option.some.inj h).symm⟩
    · exact .inl (hsame h)
  | delete hat hresumed hidle =>
    by_cases ht : t = s.pxCurrentTCB
    · subst ht
      exact absurd ((EventLists.remove_container _ _).symm.trans h) nofun
    · exact .inl (hsame ((EventLists.remove_container_of_ne _ ht).symm.trans h))
  | tickPended | suspend | delay | delayPlaced | yield | cleanUp => exact .inl (hsame h)

/-- A wake-up takes the first task off its list and leaves the other lists alone. -/
theorem lists_wake {l : ε} (hs : Step idle s e s') (he : e = .wake l ∨ e = .unlock l) (k : ε) :
    s'.events.lists (.event k) = if k = l then (s.events.lists (.event k)).tail else s.events.lists (.event k) := by
  have herased : ∀ {t ts}, s.events.lists (.event l) = t :: ts → (s.events.lists (.event k)).erase t =
      if k = l then (s.events.lists (.event k)).tail else s.events.lists (.event k) := by
    intro t ts hl
    split
    · next hk => rw [hk, hl, List.erase_cons_head, List.tail_cons]
    · next hk =>
      apply List.erase_of_not_mem
      intro hmem
      have hcontainer := (s.events.contained (.event l) t).mp (hl ▸ List.mem_cons_self)
      rw [s.events.contained, hcontainer, Option.some.injEq, EventList.event.injEq] at hmem
      exact hk hmem.symm
  have hheld : ∀ t, (holdPending t s).events.lists (.event k) = (s.events.lists (.event k)).erase t := by
    intro t
    rw [holdPending, EventLists.hold, EventLists.lists_insertPending, EventLists.lists_remove]
  rcases he with rfl | rfl
  · cases hs with
    | wakeReady l' t ts hl =>
      refine (EventLists.lists_removeAll _ _ _).trans ?_
      rw [List.diff_cons, List.diff_nil]
      exact herased hl
    | wakeHeld l' t ts hl => exact (hheld t).trans (herased hl)
  · cases hs with
    | unlockHeld l' t ts hl => exact (hheld t).trans (herased hl)

/-- In a suspended section an interrupt takes no task out of the event lists for good. -/
theorem container_interrupt (he : Interrupt e) (hs : Step idle s e s') (hsuspended : 0 < s.uxSchedulerSuspended) {t : τ}
    (h : s.events.pxContainer t ≠ none) : s'.events.pxContainer t ≠ none := by
  have hresumed : s.uxSchedulerSuspended ≠ 0 := Nat.pos_iff_ne_zero.mp hsuspended
  have hheld : ∀ u, (holdPending u s).events.pxContainer t ≠ none := by
    intro u
    simp only [holdPending, EventLists.hold, EventLists.insertPending_container]
    split
    · exact Option.some_ne_none _
    · next hu => rwa [EventLists.remove_container_of_ne _ hu]
  cases hs with
  | tickCounted hzero => exact absurd hzero hresumed
  | wakeReady k u us hk hzero => exact absurd hzero hresumed
  | switchContext s' hpend hs' =>
    obtain ⟨-, rfl⟩ | ⟨hzero, -⟩ := vTaskSwitchContext_cases hs'
    · exact h
    · exact absurd hzero hresumed
  | wakeHeld k u us hk _ => exact hheld u
  | unlockHeld k u us hk _ => exact hheld u
  | tickPended => exact h
  | suspend | resumeYielding | resume | delay | place | delayPlaced | yield | delete | cleanUp => exact he.elim

/-! ## A task that is not running -/

theorem standing_wakeAll (ts : List τ) {t : τ} (h : Standing s t) : Standing (wakeAll ts s) t := by
  by_cases ht : t ∈ ts
  · exact .inl (ReadyLists.ready_addAll.mpr (.inl ht))
  · refine h.imp (fun hready => ReadyLists.ready_addAll.mpr (.inr hready)) ?_
    rintro ⟨howner, hcontainer⟩
    simp only [wakeAll, DelayedLists.owners_removeAll, EventLists.removeAll_container, List.mem_filter, if_neg ht]
    exact ⟨⟨howner, decide_eq_true ht⟩, hcontainer⟩

theorem standing_tick {t : τ} (hresumed : s.uxSchedulerSuspended = 0) (h : Standing s t) :
    Standing (xTaskIncrementTick s).1 t := by
  have hperm := DelayedLists.owners_tick s.delayed
  rw [xTaskIncrementTick_eq hresumed]
  by_cases hrung : t ∈ s.delayed.xTaskIncrementTick.1
  · exact .inl (ReadyLists.ready_addAll.mpr (.inl hrung))
  · refine h.imp (fun hready => ReadyLists.ready_addAll.mpr (.inr hready)) ?_
    rintro ⟨howner, hcontainer⟩
    simp only [EventLists.removeAll_container, if_neg hrung]
    exact ⟨(List.mem_append.mp (hperm.mem_iff.mpr howner)).resolve_left hrung, hcontainer⟩

theorem standing_resume (hcount : 0 < s.uxCurrentNumberOfTasks) {t : τ} (h : Standing s t) :
    Standing (xTaskResumeAll s).1 t := by
  by_cases hlast : s.uxSchedulerSuspended ≤ 1
  · rw [xTaskResumeAll_last hcount hlast]
    refine countPended_inv (I := fun u => Standing u t) (fun _ hu hstanding => standing_tick hu hstanding) _
      (s := released s) rfl ?_
    refine (standing_wakeAll (s.events.lists .xPendingReadyList) h).imp id ?_
    rintro ⟨howner, hcontainer⟩
    exact ⟨owners_released (s := s) ▸ howner, hcontainer⟩
  · rw [xTaskResumeAll_nested (by omega)]
    exact h

theorem standing_hold {t u : τ} (h : Standing s t) : Standing (holdPending u s) t := by
  refine h.imp id ?_
  rintro ⟨howner, hcontainer⟩
  refine ⟨howner, ?_⟩
  simp only [holdPending, EventLists.hold, EventLists.insertPending_container]
  split
  · exact Option.some_ne_none _
  · next hu => rwa [EventLists.remove_container_of_ne _ hu]

/-- **A task stays ready or waiting**, unless it takes the step itself. -/
theorem standing_step (hcount : 0 < s.uxCurrentNumberOfTasks) (hnodup : s.ready.tasks.Nodup) (hs : Step idle s e s')
    {t : τ} (he : Interrupt e ∨ t ≠ s.pxCurrentTCB) (h : Standing s t) : Standing s' t := by
  have hremove : t ≠ s.pxCurrentTCB → s.ready.Ready t → (s.ready.remove s.pxCurrentTCB).Ready t :=
    fun ht hready => (ReadyLists.ready_remove (ReadyLists.list_nodup hnodup _)).mpr ⟨ht, hready⟩
  have hblock : ∀ x, t ≠ s.pxCurrentTCB → Standing (prvAddCurrentTaskToDelayedList x s) t := by
    intro x ht
    refine h.imp (hremove ht) ?_
    rintro ⟨howner, hcontainer⟩
    exact ⟨(DelayedLists.owners_add s.delayed s.pxCurrentTCB x).mem_iff.mpr (List.mem_cons_of_mem _ howner), hcontainer⟩
  cases hs with
  | tickCounted hresumed => exact standing_tick hresumed h
  | switchContext s' hpend hs' =>
    obtain ⟨-, rfl⟩ | ⟨-, u, r, hselect, hs'⟩ := vTaskSwitchContext_cases hs'
    · exact h
    · rw [hs']
      exact h.imp (ReadyLists.ready_select hselect).mpr id
  | wakeReady k u us hk hresumed => exact standing_wakeAll [u] h
  | wakeHeld k u us hk hsuspended => exact standing_hold h
  | unlockHeld k u us hk hsuspended => exact standing_hold h
  | resumeYielding hat hsuspended hyield => exact standing_resume hcount h
  | resume thenYield hat hsuspended hyield => exact standing_resume hcount h
  | delay x hmay => exact hblock x (he.resolve_left id)
  | delayPlaced x hpc hpend => exact hblock x (he.resolve_left id)
  | place k x hmay =>
    refine h.imp id ?_
    rintro ⟨howner, hcontainer⟩
    refine ⟨howner, ?_⟩
    simp only [setPc, EventLists.insert_container]
    split
    · exact Option.some_ne_none _
    · exact hcontainer
  | delete hat hresumed hidle =>
    have ht := he.resolve_left id
    refine h.imp (hremove ht) ?_
    rintro ⟨howner, hcontainer⟩
    exact ⟨howner, by rwa [setPc, vTaskDelete, EventLists.remove_container_of_ne _ ht]⟩
  | tickPended | suspend | yield | cleanUp => exact h

/-- No interrupt takes a task off the ready lists. -/
theorem ready_interrupt (he : Interrupt e) (hs : Step idle s e s') {t : τ} (h : s.ready.Ready t) : s'.ready.Ready t := by
  cases hs with
  | tickCounted hresumed =>
    rw [xTaskIncrementTick_eq hresumed]
    exact ReadyLists.ready_addAll.mpr (.inr h)
  | switchContext s' hpend hs' =>
    obtain ⟨-, rfl⟩ | ⟨-, u, r, hselect, hs'⟩ := vTaskSwitchContext_cases hs'
    · exact h
    · rw [hs']
      exact (ReadyLists.ready_select hselect).mpr h
  | wakeReady k u us hk hresumed => exact ReadyLists.ready_addAll.mpr (.inr h)
  | tickPended | wakeHeld | unlockHeld => exact h
  | suspend | resumeYielding | resume | delay | place | delayPlaced | yield | delete | cleanUp => exact he.elim

end WindowFilter.Scheduler
