import WindowFilter.Scheduler.Frame

/- Who is woken. The event lists are kept by priority and, among equals, in the order the
   tasks came, so that a task is never woken for an event before one of higher priority
   that waits for it too, nor before one of its own priority that has waited longer
   (`no_overtaking`), whatever comes, leaves or times out meanwhile. -/
namespace WindowFilter.Scheduler
open Steps
open WindowFilter.Lists (portMAX_DELAY)

variable {τ ε : Type} {uxPriority : τ → Priority}

/-- The value of a task's `xEventListItem`. -/
def itemValue (uxPriority : τ → Priority) (t : τ) : Nat := configMAX_PRIORITIES - (uxPriority t).val

theorem itemValue_le_iff {t u : τ} : itemValue uxPriority t ≤ itemValue uxPriority u ↔ uxPriority u ≤ uxPriority t := by
  have ht := (uxPriority t).isLt
  have hu := (uxPriority u).isLt
  rw [Fin.le_def, itemValue, itemValue]
  omega

/-- Every event list is in order. -/
def Ordered (s : State τ ε uxPriority) : Prop :=
  ∀ l, Sorted.InOrder (itemValue uxPriority) (s.events.lists (.event l))

variable [DecidableEq τ] [DecidableEq ε] {idle : τ} {s s' : State τ ε uxPriority} {e : Event ε}

theorem lists_resume (hcount : 0 < s.uxCurrentNumberOfTasks) (l : ε) :
    ∃ ts, (xTaskResumeAll s).1.events.lists (.event l) = (s.events.lists (.event l)).diff ts := by
  by_cases hlast : s.uxSchedulerSuspended ≤ 1
  · rw [xTaskResumeAll_last hcount hlast]
    refine countPended_inv
      (I := fun u => ∃ ts, u.events.lists (.event l) = (s.events.lists (.event l)).diff ts) ?_ _
      (s := released s) rfl ⟨_, EventLists.lists_removeAll _ _ _⟩
    rintro u hu ⟨ts, hts⟩
    rw [xTaskIncrementTick_eq hu]
    refine ⟨ts ++ u.delayed.xTaskIncrementTick.1, ?_⟩
    simp only [EventLists.lists_removeAll, hts, List.diff_append]
  · rw [xTaskResumeAll_nested (by omega)]
    exact ⟨[], rfl⟩

/-- **What a step does to an event list**: it takes tasks out, or puts the running task in. -/
theorem lists_step (hcount : 0 < s.uxCurrentNumberOfTasks) (hs : Step idle s e s') (l : ε) :
    (∃ ts, s'.events.lists (.event l) = (s.events.lists (.event l)).diff ts) ∨
    (s.events.pxContainer s.pxCurrentTCB = none ∧
      s'.events.lists (.event l) =
        Sorted.insert (itemValue uxPriority) s.pxCurrentTCB (s.events.lists (.event l))) := by
  have hheld : ∀ t, (holdPending t s).events.lists (.event l) = (s.events.lists (.event l)).diff [t] := by
    intro t
    rw [holdPending, EventLists.hold, EventLists.lists_insertPending, EventLists.lists_remove, List.diff_cons, List.diff_nil]
  cases hs with
  | tickCounted hresumed =>
    rw [xTaskIncrementTick_eq hresumed]
    exact .inl ⟨_, EventLists.lists_removeAll _ _ _⟩
  | switchContext s' hpend hs' =>
    obtain ⟨hsuspended, rfl⟩ | ⟨-, t, r, -, hs'⟩ := vTaskSwitchContext_cases hs'
    · exact .inl ⟨[], rfl⟩
    · rw [hs']
      exact .inl ⟨[], rfl⟩
  | wakeReady k t ts hk hresumed => exact .inl ⟨_, EventLists.lists_removeAll _ _ _⟩
  | wakeHeld k t ts hk hsuspended => exact .inl ⟨_, hheld t⟩
  | unlockHeld k t ts hk hsuspended => exact .inl ⟨_, hheld t⟩
  | resumeYielding hat hsuspended hyield => exact .inl (lists_resume hcount l)
  | resume thenYield hat hsuspended hyield => exact .inl (lists_resume hcount l)
  | place k xTicksToWait hblock =>
    simp only [setPc, EventLists.lists_insert]
    split
    · exact .inr ⟨hblock.2.2.2.2.2, rfl⟩
    · exact .inl ⟨[], rfl⟩
  | delete hat hresumed hidle =>
    refine .inl ⟨[s.pxCurrentTCB], ?_⟩
    rw [List.diff_cons, List.diff_nil, ← EventLists.lists_remove]
    rfl
  | tickPended | suspend | delay | delayPlaced | yield | cleanUp => exact .inl ⟨[], rfl⟩

theorem ordered_step (hcount : 0 < s.uxCurrentNumberOfTasks) (h : Ordered s) (hs : Step idle s e s') : Ordered s' := by
  intro l
  obtain ⟨ts, hts⟩ | ⟨-, hinsert⟩ := lists_step hcount hs l
  · rw [hts]
    exact List.Pairwise.sublist (List.diff_sublist _ _) (h l)
  · rw [hinsert]
    exact Sorted.insert_inOrder _ (h l)

theorem ordered_exec {t : τ} {ts : List τ} (hnodup : (t :: ts).Nodup) (hidle : idle ∈ t :: ts) {es : List (Event ε)}
    (h : exec (step idle) (start t ts : State τ ε uxPriority) es = some s) : Ordered s := by
  refine (exec_inv (I := fun u => Good idle u ∧ Ordered u) ?_ h ⟨(good_start hnodup hidle).1, ?_⟩).2
  · rintro u e v ⟨hgood, hordered⟩ hs
    exact ⟨good_step hgood (step_cases hs), ordered_step hgood.filed.count_pos hordered (step_cases hs)⟩
  · obtain ⟨c, hc, -⟩ := @start_eq τ ε uxPriority t ts
    rw [hc]
    exact fun _ => List.Pairwise.nil

/-! ## No overtaking -/

/-- Where both wait for `l`, `x` is before `y`. -/
def Before (x y : τ) (l : ε) (s : State τ ε uxPriority) : Prop :=
  y ∈ s.events.lists (.event l) → List.Sublist [x, y] (s.events.lists (.event l))

omit [DecidableEq τ] [DecidableEq ε] in
/-- The second of two is left when the first task of a list goes. -/
theorem mem_tail_of_sublist {x y : τ} {xs : List τ} (h : List.Sublist [x, y] xs) : y ∈ xs.tail := by
  cases h with
  | cons _ htail => exact htail.subset (List.mem_cons_of_mem _ List.mem_cons_self)
  | cons_cons _ htail => exact htail.subset List.mem_cons_self

theorem before_step {x y : τ} {l : ε} (hgood : Good idle s) (hordered : Ordered s)
    (hle : uxPriority y ≤ uxPriority x) (hs : Step idle s e s') (hx : x ∈ s.events.lists (.event l))
    (hx' : x ∈ s'.events.lists (.event l)) (h : Before x y l s) : Before x y l s' := by
  have hnodup := s.events.once (.event l)
  intro hy'
  obtain ⟨ts, hts⟩ | ⟨hfree, hinsert⟩ := lists_step hgood.filed.count_pos hs l
  · rw [hts] at hx' hy' ⊢
    obtain ⟨-, hxts⟩ := hnodup.mem_sdiff_iff.mp hx'
    obtain ⟨hy, hyts⟩ := hnodup.mem_sdiff_iff.mp hy'
    -- neither of them is among the tasks taken out
    have hkept : [x, y].diff ts = [x, y] := by
      rw [List.cons_diff_of_not_mem hxts, List.cons_diff_of_not_mem hyts, List.nil_diff]
    exact hkept ▸ (h hy).diff_right
  · rw [hinsert] at hy' ⊢
    rcases Sorted.mem_insert.mp hy' with rfl | hy
    · exact Sorted.sublist_insert hx (itemValue_le_iff.mpr hle) (hordered l)
    · exact (h hy).trans (List.sublist_orderedInsert _ _)

/-- **A task is not overtaken.** While `x` waits in `l`, no wake-up takes `y` off it. -/
theorem no_overtaking {t : τ} {ts : List τ} (hnodup : (t :: ts).Nodup) (hidle : idle ∈ t :: ts) {es₀ es : List (Event ε)}
    {s₀ : State τ ε uxPriority} (h₀ : exec (step idle) (start t ts) es₀ = some s₀) {x y : τ} {l : ε}
    (hbefore : uxPriority y < uxPriority x ∨ (uxPriority y = uxPriority x ∧ y ∉ s₀.events.lists (.event l)))
    (hwaits : Always (step idle) (fun u => x ∈ u.events.lists (.event l)) s₀ es) :
    AllSteps (step idle) (fun u e => e = .wake l ∨ e = .unlock l → y ∈ u.events.lists (.event l) →
      ∀ v, step idle u e = some v → y ∈ v.events.lists (.event l)) s₀ es := by
  have hle : uxPriority y ≤ uxPriority x := hbefore.elim le_of_lt (fun h => le_of_eq h.1)
  have hordered := ordered_exec hnodup hidle h₀
  have hx := always_head hwaits
  have hstart : Before x y l s₀ := by
    intro hy
    rcases hbefore with hlt | ⟨-, hnot⟩
    · have hvalue : itemValue uxPriority x < itemValue uxPriority y :=
        not_le.mp (fun hge => absurd (itemValue_le_iff.mp hge) (not_le.mpr hlt))
      exact Sorted.sublist_of_lt (hordered l) hx hy hvalue
    · exact absurd hy hnot
  have hguard := allSteps_of_always hwaits (allSteps_of_forall (G := fun _ _ => True) (fun _ _ _ => trivial) s₀)
  refine allSteps_of_inv (I := fun u => Good idle u ∧ Ordered u ∧ Before x y l u) ?_ ?_ hguard
    ⟨good_exec hnodup hidle h₀, hordered, hstart⟩
  · rintro u e v ⟨hgood, hordered, hbefore⟩ ⟨-, hx, hstays⟩ hs
    exact ⟨good_step hgood (step_cases hs), ordered_step hgood.filed.count_pos hordered (step_cases hs),
      before_step hgood hordered hle (step_cases hs) hx (hstays v hs) hbefore⟩
  · rintro u e ⟨-, -, hbefore⟩ - hwake hy v hs
    -- the step takes the first task, and `y` is not the first
    rw [lists_wake (step_cases hs) hwake, if_pos rfl]
    exact mem_tail_of_sublist (hbefore hy)

/-- The running task comes to wait for what the queue `q` receives. -/
def comesToWait (q : Fin 3) : List (Event Waiting) :=
  [.suspend, .place (.toReceive q) portMAX_DELAY, .delayPlaced, .resume true, .yield, .pendSV]

/-- The receiver, the sensor and `vTaskUpdateN` come to wait, in this order, and the receiver
is woken: while the sensor waits, `vTaskUpdateN` stays. -/
theorem no_overtaking_updateN :
    ∃ s₀, exec (step .idle) (start .sensor [.receiver, .updateN, .idle] : State Task Waiting Task.uxPriority)
        (comesToWait 0 ++ comesToWait 0) = some s₀ ∧
      s₀.events.lists (.event (.toReceive 0)) = [.receiver, .sensor] ∧
      AllSteps (step .idle) (fun u e => e = .wake (.toReceive 0) ∨ e = .unlock (.toReceive 0) →
        Task.updateN ∈ u.events.lists (.event (.toReceive 0)) →
        ∀ v, step .idle u e = some v → Task.updateN ∈ v.events.lists (.event (.toReceive 0))) s₀
        (comesToWait 0 ++ [.wake (.toReceive 0), .pendSV]) := by
  have hrun : exec (step .idle) (start .sensor [.receiver, .updateN, .idle] : State Task Waiting Task.uxPriority)
      (comesToWait 0 ++ comesToWait 0) = some _ := rfl
  refine ⟨_, hrun, rfl, ?_⟩
  exact no_overtaking (x := Task.sensor) (by decide) (by decide) hrun (.inr (by decide)) (by decide)

end WindowFilter.Scheduler
