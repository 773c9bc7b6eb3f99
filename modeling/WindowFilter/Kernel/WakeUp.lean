import WindowFilter.Kernel.Model

/- Can the updater sleep while a command waits? The event list is filled between two
   looks at the queue: `prvIsQueueEmpty` finds it empty, then `vListInsert` puts the
   task on `xTasksWaitingToReceive`. A send from the handler in that gap finds nobody
   to wake, and being the task-level send it does not count itself in `cTxLock`
   either, so `prvUnlockQueue` has nothing to make up for.

   * `wakeInv_step`: outside the gap, a task on the event list means an empty queue.
   * `gap_strands`: a send in the gap puts the updater to sleep on a non-empty queue.
   * `gap_free_iff_no_lost_wakeup`: the two together, over runs. -/
namespace WindowFilter.Kernel
open Steps

/-- The updater has blocked: it sits in `xTasksWaitingToReceive`, the queue is
unlocked, the scheduler resumed, and no handler is stuck. -/
structure Sleeping (w : State) : Prop where
  waits : .updateN ∈ w.xUpdateNQueue.xTasksWaitingToReceive
  done : w.pc = .check
  rxUnlocked : w.xUpdateNQueue.cRxLock = queueUNLOCKED
  txUnlocked : w.xUpdateNQueue.cTxLock = queueUNLOCKED
  resumed : w.sched.uxSchedulerSuspended = 0
  running : w.isrWaiting = false

/-- No command arrives between the re-check that found the queue empty and the
insertion in the event list. -/
def GapFree (w : State) : Event → Prop
  | .isr c => (Window.delta c).isSome → w.pc ≠ .insert
  | _ => True

instance (w : State) (e : Event) : Decidable (GapFree w e) := by
  cases e <;> unfold GapFree <;> infer_instance

/-- Where the updater can be while it is on the event list. -/
def Pc.waiting : Pc → Bool
  | .check | .delay | .unlockTx .block | .unlockRx .block | .resume .block => true
  | _ => false

/-- What every step outside the gap keeps. `Listed` is "the updater is on the event list". -/
structure WakeInv (w : State) : Prop where
  only : w.xUpdateNQueue.xTasksWaitingToReceive = [] ∨ w.xUpdateNQueue.xTasksWaitingToReceive = [.updateN]
  noSender : w.xUpdateNQueue.xTasksWaitingToSend = []
  unmodified : w.xUpdateNQueue.cTxLock ≤ 0
  empty : w.xUpdateNQueue.xTasksWaitingToReceive ≠ [] → w.xUpdateNQueue.uxMessagesWaiting = 0
  recheck : w.pc = .insert → w.xUpdateNQueue.uxMessagesWaiting = 0
  fresh : w.xUpdateNQueue.xTasksWaitingToReceive ≠ [] → w.pc.waiting = true
  blocked : w.xUpdateNQueue.xTasksWaitingToReceive ≠ [] → w.pc ≠ .delay →
    .updateN ∈ w.sched.pxDelayedTaskList
  notPending : w.xUpdateNQueue.xTasksWaitingToReceive ≠ [] → .updateN ∉ w.sched.xPendingReadyList
  pending : .updateN ∈ w.sched.xPendingReadyList → w.pc.waiting = true ∧ w.sched.uxSchedulerSuspended ≠ 0
  owned : w.pc.suspended = true → w.sched.uxSchedulerSuspended = 1

theorem wakeInv_init : WakeInv init := by
  refine ⟨.inl rfl, rfl, by decide, ?_, ?_, ?_, ?_, ?_, ?_, ?_⟩ <;> simp [init, Queue_t.create, Pc.suspended]

/-! ## The scheduler -/

theorem foldl_ready (ts : List Task) (s : Scheduler) (t : Task) (ht : t ∉ ts) :
    t ∈ (ts.foldl (fun s t => prvAddTaskToReadyList t s) s).pxDelayedTaskList ↔ t ∈ s.pxDelayedTaskList := by
  induction ts generalizing s with
  | nil => rfl
  | cons u ts ih =>
    simp only [List.mem_cons, not_or] at ht
    rw [List.foldl_cons, ih _ ht.2]
    simp [prvAddTaskToReadyList, ht.1]

theorem foldl_suspended (ts : List Task) (s : Scheduler) :
    (ts.foldl (fun s t => prvAddTaskToReadyList t s) s).uxSchedulerSuspended = s.uxSchedulerSuspended := by
  induction ts generalizing s with
  | nil => rfl
  | cons u ts ih => rw [List.foldl_cons, ih]; rfl

theorem xTaskResumeAll_suspended (s : Scheduler) :
    (xTaskResumeAll s).uxSchedulerSuspended = s.uxSchedulerSuspended - 1 := by
  dsimp only [xTaskResumeAll]
  split
  · exact foldl_suspended _ _
  · rfl

/-- Only a scheduler that stays suspended keeps its pending tasks. -/
theorem xTaskResumeAll_pending {s : Scheduler} {t : Task} (h : t ∈ (xTaskResumeAll s).xPendingReadyList) :
    t ∈ s.xPendingReadyList ∧ s.uxSchedulerSuspended - 1 ≠ 0 := by
  dsimp only [xTaskResumeAll] at h
  split at h
  · simp at h
  · next hs => exact ⟨h, hs⟩

/-- A task that is not pending stays blocked. -/
theorem xTaskResumeAll_delayed {s : Scheduler} {t : Task} (ht : t ∉ s.xPendingReadyList)
    (hd : t ∈ s.pxDelayedTaskList) : t ∈ (xTaskResumeAll s).pxDelayedTaskList := by
  dsimp only [xTaskResumeAll]
  split
  · exact (foldl_ready _ _ t ht).mpr hd
  · exact hd

theorem wakeCounted_nil (n : Nat) (s : Scheduler) : wakeCounted n [] s = ([], s) := by
  cases n <;> rfl

/-- With no count to make up for, unlocking wakes nobody. -/
theorem unlockTx_unmodified {w : State} (h : w.xUpdateNQueue.cTxLock ≤ 0) :
    unlockTx w = { w with xUpdateNQueue := { w.xUpdateNQueue with cTxLock := queueUNLOCKED } } := by
  dsimp only [unlockTx]
  rw [Int.toNat_of_nonpos h]
  rfl

theorem unlockRx_noSender {w : State} (h : w.xUpdateNQueue.xTasksWaitingToSend = []) :
    unlockRx w = { w with xUpdateNQueue := { w.xUpdateNQueue with cRxLock := queueUNLOCKED } } := by
  dsimp only [unlockRx]
  simp only [h, wakeCounted_nil]

/-! ## The invariant, step by step -/

/-- With nobody on the event list, most of the invariant is vacuous. -/
theorem wakeInv_of_nil {w : State} (hlist : w.xUpdateNQueue.xTasksWaitingToReceive = [])
    (hsend : w.xUpdateNQueue.xTasksWaitingToSend = []) (hlock : w.xUpdateNQueue.cTxLock ≤ 0)
    (hrecheck : w.pc = .insert → w.xUpdateNQueue.uxMessagesWaiting = 0)
    (hpending : .updateN ∈ w.sched.xPendingReadyList →
      w.pc.waiting = true ∧ w.sched.uxSchedulerSuspended ≠ 0)
    (howned : w.pc.suspended = true → w.sched.uxSchedulerSuspended = 1) : WakeInv w where
  only := .inl hlist
  noSender := hsend
  unmodified := hlock
  empty h := absurd hlist h
  recheck := hrecheck
  fresh h := absurd hlist h
  blocked h := absurd hlist h
  notPending h := absurd hlist h
  pending := hpending
  owned := howned

/-- Waking the updater from the event list. -/
theorem WakeInv.woken {w : State} (hi : WakeInv w) :
    (wakeFirst w.xUpdateNQueue.xTasksWaitingToReceive w.sched).1 = [] ∧
    (wakeFirst w.xUpdateNQueue.xTasksWaitingToReceive w.sched).2.uxSchedulerSuspended =
      w.sched.uxSchedulerSuspended ∧
    (.updateN ∈ (wakeFirst w.xUpdateNQueue.xTasksWaitingToReceive w.sched).2.xPendingReadyList →
      w.pc.waiting = true ∧ w.sched.uxSchedulerSuspended ≠ 0) := by
  obtain h | h := hi.only
  · rw [h]
    exact ⟨rfl, rfl, hi.pending⟩
  · have hfresh := hi.fresh (by rw [h]; simp)
    rw [h]
    dsimp only [wakeFirst, xTaskRemoveFromEventList]
    split
    · exact ⟨rfl, rfl, hi.pending⟩
    · next hs => exact ⟨rfl, rfl, fun _ => ⟨hfresh, hs⟩⟩

theorem wakeInv_isr {w w' : State} {c : UInt8} (hi : WakeInv w) (hg : GapFree w (.isr c))
    (h : step w (.isr c) = some w') : WakeInv w' := by
  obtain ⟨_, hw'⟩ | ⟨d, hroom, hd, hw'⟩ | ⟨d, _, _, hw'⟩ := step_isr h
  · subst hw'
    exact { hi with }
  · subst hw'
    have hpc : w.pc ≠ .insert := hg (by rw [hd]; rfl)
    obtain ⟨hlist, hsusp, hpend⟩ := hi.woken
    exact wakeInv_of_nil hlist hi.noSender hi.unmodified (fun h => absurd h hpc)
      (fun h => ⟨(hpend h).1, fun h0 => (hpend h).2 (hsusp.symm.trans h0)⟩)
      (fun h => hsusp.trans (hi.owned h))
  · subst hw'
    exact { hi with }

/-- Unless it suspended the scheduler itself, the updater runs off the event list, and
nothing is pending for it. -/
theorem WakeInv.list_nil {w : State} (hi : WakeInv w) (hrun : canRun w) (hpc : w.pc.suspended = false) :
    w.xUpdateNQueue.xTasksWaitingToReceive = [] ∧ .updateN ∉ w.sched.xPendingReadyList ∧
      w.sched.uxSchedulerSuspended = 0 := by
  obtain h | ⟨hsusp, hready⟩ := hrun
  · rw [hpc] at h
    cases h
  · refine ⟨?_, fun h => (hi.pending h).2 hsusp, hsusp⟩
    by_contra hlist
    refine hready (hi.blocked hlist ?_)
    intro h
    rw [h] at hpc
    cases hpc

/-- Off the event list before the insertion: the updater is not pending either. -/
theorem WakeInv.not_pending {w : State} (hi : WakeInv w) (hpc : w.pc.waiting = false) :
    w.xUpdateNQueue.xTasksWaitingToReceive = [] ∧ .updateN ∉ w.sched.xPendingReadyList := by
  refine ⟨?_, ?_⟩
  · by_contra h
    rw [hi.fresh h] at hpc
    cases hpc
  · intro h
    rw [(hi.pending h).1] at hpc
    cases hpc

/-- A step of a suspending updater that moves no task: only where it is changes. -/
theorem WakeInv.goes_on {w w' : State} (hi : WakeInv w) (hsched : w'.sched = w.sched)
    (hlist : w'.xUpdateNQueue.xTasksWaitingToReceive = w.xUpdateNQueue.xTasksWaitingToReceive)
    (hsend : w'.xUpdateNQueue.xTasksWaitingToSend = w.xUpdateNQueue.xTasksWaitingToSend)
    (hcount : w'.xUpdateNQueue.uxMessagesWaiting = w.xUpdateNQueue.uxMessagesWaiting)
    (hlock : w'.xUpdateNQueue.cTxLock ≤ 0) (hwaiting : w'.pc.waiting = w.pc.waiting)
    (hsusp : w.pc.suspended = true) (hdelay : w.pc ≠ .delay) (hinsert : w'.pc ≠ .insert) : WakeInv w' where
  only := by
    rw [hlist]
    exact hi.only
  noSender := hsend.trans hi.noSender
  unmodified := hlock
  empty h := by
    rw [hcount]
    exact hi.empty (hlist ▸ h)
  recheck h := absurd h hinsert
  fresh h := hwaiting.trans (hi.fresh (hlist ▸ h))
  blocked h _ := by
    rw [hsched]
    exact hi.blocked (hlist ▸ h) hdelay
  notPending h := by
    rw [hsched]
    exact hi.notPending (hlist ▸ h)
  pending h := by
    rw [hsched] at h ⊢
    rw [hwaiting]
    exact hi.pending h
  owned _ := by
    rw [hsched]
    exact hi.owned hsusp

theorem wakeInv_check {w : State} (hi : WakeInv w) (hpc : w.pc = .check) (hrun : canRun w) :
    WakeInv (check w) := by
  obtain ⟨hlist, hpend, -⟩ := hi.list_nil hrun (by rw [hpc]; rfl)
  have hsend := hi.noSender
  unfold check
  split
  · simp only [Queue_t.takeFront, hsend, wakeFirst]
    exact wakeInv_of_nil hlist rfl hi.unmodified (by simp) (fun h => absurd h hpend) (by simp [Pc.suspended])
  · split
    · exact { hi with }
    · exact wakeInv_of_nil hlist hsend hi.unmodified (by simp) (fun h => absurd h hpend) (by simp [Pc.suspended])

theorem wakeInv_updater {w : State} {expired : Bool} (hi : WakeInv w) (hrun : canRun w) :
    WakeInv (vTaskUpdateN expired w) := by
  cases hpc : w.pc with
  | check =>
    simp only [vTaskUpdateN, hpc]
    exact wakeInv_check hi hpc hrun
  | suspend =>
    simp only [vTaskUpdateN, hpc]
    obtain ⟨hlist, hpend, hsusp⟩ := hi.list_nil hrun (by rw [hpc]; rfl)
    exact wakeInv_of_nil hlist hi.noSender hi.unmodified (by simp) (fun h => absurd h hpend)
      (fun _ => by simp [vTaskSuspendAll, hsusp])
  | lock =>
    simp only [vTaskUpdateN, hpc]
    obtain ⟨hlist, hpend⟩ := hi.not_pending (by rw [hpc]; rfl)
    have hlock := hi.unmodified
    have howned := hi.owned (by rw [hpc]; rfl)
    refine wakeInv_of_nil hlist hi.noSender ?_ (by simp) (fun h => absurd h hpend) (fun _ => howned)
    simp only [Queue_t.prvLockQueue, queueLOCKED_UNMODIFIED]
    split
    · exact Int.le_refl 0
    · exact hlock
  | checkTimeOut =>
    simp only [vTaskUpdateN, hpc]
    obtain ⟨hlist, hpend⟩ := hi.not_pending (by rw [hpc]; rfl)
    have howned := hi.owned (by rw [hpc]; rfl)
    split
    · exact wakeInv_of_nil hlist hi.noSender hi.unmodified (by simp) (fun h => absurd h hpend) (fun _ => howned)
    · exact wakeInv_of_nil hlist hi.noSender hi.unmodified (by simp) (fun h => absurd h hpend) (fun _ => howned)
  | isEmpty =>
    simp only [vTaskUpdateN, hpc]
    obtain ⟨hlist, hpend⟩ := hi.not_pending (by rw [hpc]; rfl)
    have howned := hi.owned (by rw [hpc]; rfl)
    refine wakeInv_of_nil hlist hi.noSender hi.unmodified ?_ (fun h => absurd h hpend) (fun _ => howned)
    cases hq : w.xUpdateNQueue.prvIsQueueEmpty with
    | true => intro _; simpa [Queue_t.prvIsQueueEmpty] using hq
    | false => simp
  | insert =>
    simp only [vTaskUpdateN, hpc]
    -- the event list is empty and so is the queue: the updater alone goes on the list
    obtain ⟨hlist, hpend⟩ := hi.not_pending (by rw [hpc]; rfl)
    have howned := hi.owned (by rw [hpc]; rfl)
    have hempty := hi.recheck hpc
    exact {
      only := .inr (by rw [hlist]; rfl)
      noSender := hi.noSender
      unmodified := hi.unmodified
      empty := fun _ => hempty
      recheck := by simp
      fresh := fun _ => rfl
      blocked := fun _ h => absurd rfl h
      notPending := fun _ => hpend
      pending := fun h => absurd h hpend
      owned := fun _ => howned }
  | delay =>
    simp only [vTaskUpdateN, hpc]
    have howned := hi.owned (by rw [hpc]; rfl)
    exact {
      only := hi.only
      noSender := hi.noSender
      unmodified := hi.unmodified
      empty := hi.empty
      recheck := by simp
      fresh := fun _ => rfl
      blocked := fun _ _ => List.mem_cons_self
      notPending := hi.notPending
      pending := fun h => ⟨rfl, (hi.pending h).2⟩
      owned := fun _ => howned }
  | unlockTx a =>
    simp only [vTaskUpdateN, hpc, unlockTx_unmodified hi.unmodified]
    refine hi.goes_on rfl rfl rfl rfl (by decide : queueUNLOCKED ≤ 0) ?_ ?_ ?_ ?_
    · rw [hpc]
      cases a <;> rfl
    · rw [hpc]
      rfl
    · simp [hpc]
    · simp
  | unlockRx a =>
    simp only [vTaskUpdateN, hpc, unlockRx_noSender hi.noSender]
    refine hi.goes_on rfl rfl rfl rfl hi.unmodified ?_ ?_ ?_ ?_
    · rw [hpc]
      cases a <;> rfl
    · rw [hpc]
      rfl
    · simp [hpc]
    · simp
  | resume a =>
    simp only [vTaskUpdateN, hpc]
    have howned := hi.owned (by rw [hpc]; rfl)
    have hfresh := hi.fresh
    rw [hpc] at hfresh
    have hsusp := xTaskResumeAll_suspended w.sched
    -- the updater's own resume is the last one, and leaves nothing pending
    have hnone : ∀ t, t ∉ (xTaskResumeAll w.sched).xPendingReadyList := fun t h =>
      (xTaskResumeAll_pending h).2 (by rw [howned])
    exact {
      only := hi.only
      noSender := hi.noSender
      unmodified := hi.unmodified
      empty := hi.empty
      recheck := by cases a <;> simp
      fresh := fun h => by have := hfresh h; cases a <;> simp_all [Pc.waiting]
      blocked := fun h _ => xTaskResumeAll_delayed (hi.notPending h) (hi.blocked h (by rw [hpc]; simp))
      notPending := fun _ => hnone _
      pending := fun h => absurd h (hnone _)
      owned := by cases a <;> simp [Pc.suspended] }
  | isEmptyTimedOut =>
    simp only [vTaskUpdateN, hpc]
    obtain ⟨hlist, hpend, -⟩ := hi.list_nil hrun (by rw [hpc]; rfl)
    split
    · exact wakeInv_of_nil hlist hi.noSender hi.unmodified (by simp) (fun h => absurd h hpend)
        (by simp [Pc.suspended])
    · exact wakeInv_of_nil hlist hi.noSender hi.unmodified (by simp) (fun h => absurd h hpend)
        (by simp [Pc.suspended])
  | store =>
    simp only [vTaskUpdateN, hpc]
    obtain ⟨hlist, hpend, -⟩ := hi.list_nil hrun (by rw [hpc]; rfl)
    exact wakeInv_of_nil hlist hi.noSender hi.unmodified (by simp) (fun h => absurd h hpend)
      (by simp [Pc.suspended])
  | print =>
    simp only [vTaskUpdateN, hpc]
    obtain ⟨hlist, hpend, -⟩ := hi.list_nil hrun (by rw [hpc]; rfl)
    exact wakeInv_of_nil hlist hi.noSender hi.unmodified (by simp) (fun h => absurd h hpend)
      (by simp [Pc.suspended])

theorem wakeInv_timeOut {w : State} (hi : WakeInv w) (hsusp : w.sched.uxSchedulerSuspended = 0) :
    WakeInv (wakeOnTick w) := by
  have hpend : .updateN ∉ w.sched.xPendingReadyList := fun h => (hi.pending h).2 hsusp
  refine wakeInv_of_nil ?_ hi.noSender hi.unmodified hi.recheck (fun h => absurd h hpend) hi.owned
  obtain h | h := hi.only
  · simp [wakeOnTick, h]
  · simp [wakeOnTick, h]

theorem wakeInv_suspendOther {w : State} (hi : WakeInv w) (hpc : w.pc.suspended = false) :
    WakeInv { w with sched := vTaskSuspendAll w.sched } :=
  { hi with
    pending := fun h => ⟨(hi.pending h).1, Nat.succ_ne_zero _⟩
    owned := fun h => by rw [hpc] at h; cases h }

theorem wakeInv_resumeOther {w : State} (hi : WakeInv w) (hpc : w.pc.suspended = false) :
    WakeInv { w with sched := xTaskResumeAll w.sched } :=
  { hi with
    blocked := fun h hd => xTaskResumeAll_delayed (hi.notPending h) (hi.blocked h hd)
    notPending := fun h hp => hi.notPending h (xTaskResumeAll_pending hp).1
    pending := fun h => ⟨(hi.pending (xTaskResumeAll_pending h).1).1, by
      rw [xTaskResumeAll_suspended]
      exact (xTaskResumeAll_pending h).2⟩
    owned := fun h => by rw [hpc] at h; cases h }

/-- Every step outside the gap keeps the invariant. -/
theorem wakeInv_step {w w' : State} {e : Event} (hi : WakeInv w) (hg : GapFree w e)
    (h : step w e = some w') : WakeInv w' := by
  have hw : ¬ w.isrWaiting = true := Bool.eq_false_iff.mp (step_some h)
  cases e with
  | isr c => exact wakeInv_isr hi hg h
  | updater expired =>
    simp only [step, if_neg hw] at h
    split at h
    · next hrun =>
      rw [Option.some.injEq] at h
      subst h
      exact wakeInv_updater hi hrun
    · cases h
  | timeOut =>
    simp only [step, if_neg hw] at h
    split at h
    · next ht =>
      rw [Option.some.injEq] at h
      subst h
      exact wakeInv_timeOut hi ht.1
    · cases h
  | suspendOther =>
    simp only [step, if_neg hw] at h
    split at h
    · cases h
    · next hpc =>
      rw [Option.some.injEq] at h
      subst h
      exact wakeInv_suspendOther hi (Bool.eq_false_iff.mpr hpc)
  | resumeOther =>
    simp only [step, if_neg hw] at h
    split at h
    · cases h
    · next hpc =>
      rw [Option.some.injEq] at h
      subst h
      exact wakeInv_resumeOther hi (Bool.eq_false_iff.mpr (fun hs => hpc (.inl hs)))

theorem wakeInv_exec {es : List Event} {w : State} (h : exec step init es = some w)
    (hg : AllSteps step GapFree init es) : WakeInv w :=
  exec_inv_of (fun _ _ _ hi hgap hs => wakeInv_step hi hgap hs) h hg wakeInv_init

/-- A sleeping updater has nothing to receive. -/
theorem WakeInv.sleeping {w : State} (hi : WakeInv w) (hs : Sleeping w) : w.xUpdateNQueue.contents = [] := by
  have hcount := hi.empty (List.ne_nil_of_mem hs.waits)
  rw [← Queue_t.contents_length] at hcount
  exact List.eq_nil_of_length_eq_zero hcount

/-! ## The gap -/

/-- An event of the updater. -/
def IsUpdater : Event → Prop
  | .updater _ => True
  | _ => False

/-- The updater is no command. -/
theorem gapFree_updater {us : List Event} (hus : ∀ e ∈ us, IsUpdater e) (w : State) :
    AllSteps step GapFree w us := by
  refine allSteps_of_forall ?_ w
  intro e he v
  have hu := hus e he
  cases e with
  | updater expired => trivial
  | isr c => exact hu.elim
  | timeOut => exact hu.elim
  | suspendOther => exact hu.elim
  | resumeOther => exact hu.elim

/-- Where the updater ends up when nothing comes between the insertion and the resume. -/
def asleep (w : State) : State :=
  { w with
    sched := xTaskResumeAll (prvAddCurrentTaskToDelayedList .updateN w.sched)
    xUpdateNQueue := { w.xUpdateNQueue with
      xTasksWaitingToReceive := vListInsert .updateN w.xUpdateNQueue.xTasksWaitingToReceive
      cRxLock := queueUNLOCKED
      cTxLock := queueUNLOCKED }
    pc := .check }

/-- From the insertion on, the updater goes to sleep on whatever is in the queue. -/
theorem insert_sleeps {w : State} (hpc : w.pc = .insert) (hrun : w.isrWaiting = false)
    (hsend : w.xUpdateNQueue.xTasksWaitingToSend = []) (hlock : w.xUpdateNQueue.cTxLock ≤ 0) :
    exec step w (List.replicate 5 (.updater false)) = some (asleep w) := by
  simp [List.replicate, exec, step, canRun, vTaskUpdateN, hpc, hrun, Pc.suspended, unlockTx_unmodified,
    unlockRx_noSender, hlock, hsend, asleep]

theorem asleep_sleeping {w : State} (hrun : w.isrWaiting = false)
    (hlist : w.xUpdateNQueue.xTasksWaitingToReceive = []) (hsusp : w.sched.uxSchedulerSuspended = 1) :
    Sleeping (asleep w) where
  waits := by simp [asleep, hlist, vListInsert]
  done := rfl
  rxUnlocked := rfl
  txUnlocked := rfl
  resumed := by simp [asleep, xTaskResumeAll_suspended, prvAddCurrentTaskToDelayedList, hsusp]
  running := hrun

/-- A command in the gap: the number is in the queue, and the updater goes to sleep. -/
theorem gap_strands {w w' : State} {c : UInt8} (hi : WakeInv w) (hc : (Window.delta c).isSome)
    (hpc : w.pc = .insert) (h : step w (.isr c) = some w') :
    ∃ us v, (∀ e ∈ us, IsUpdater e) ∧ exec step w' us = some v ∧ Sleeping v ∧
      v.xUpdateNQueue.contents ≠ [] := by
  have hrun := step_some h
  have hempty := hi.recheck hpc
  obtain ⟨hlist, -⟩ := hi.not_pending (by rw [hpc]; rfl)
  have howned := hi.owned (by rw [hpc]; rfl)
  obtain ⟨hd, _⟩ | ⟨d, hroom, hd, hw'⟩ | ⟨d, _, hfull, _⟩ := step_isr h
  · rw [hd] at hc
    cases hc
  · subst hw'
    have hnil : wakeFirst w.xUpdateNQueue.xTasksWaitingToReceive w.sched = ([], w.sched) := by
      rw [hlist]
      rfl
    have hsusp := congrArg (fun r => r.2.uxSchedulerSuspended) hnil
    refine ⟨_, _, ?_, insert_sleeps (w := afterSend w c d hroom) hpc hrun hi.noSender hi.unmodified,
      asleep_sleeping hrun (congrArg Prod.fst hnil) (hsusp.trans howned), ?_⟩
    · intro e he
      rw [List.eq_of_mem_replicate he]
      trivial
    · -- sleeping changes no item, and the number just sent is one
      intro hnone
      have hsent := Queue_t.sendToBack_contents w.xUpdateNQueue (int32 (w.valor_ventana + d)) hroom
      exact List.append_ne_nil_of_right_ne_nil _ (List.cons_ne_nil _ _) (hsent.symm.trans hnone)
  · rw [hempty] at hfull
    exact absurd (by decide) hfull

/-- **No wake-up is lost exactly on gap-free runs.** In every run: no command arrived
between the re-check and the insertion if and only if, in every state of the run and
every state the updater reaches from one, an updater asleep has an empty queue. -/
theorem gap_free_iff_no_lost_wakeup {es : List Event} {w : State} (h : exec step init es = some w) :
    AllSteps step GapFree init es ↔
      ∀ bs us v, bs <+: es → (∀ e ∈ us, IsUpdater e) → exec step init (bs ++ us) = some v →
        Sleeping v → v.xUpdateNQueue.contents = [] := by
  refine ⟨?_, ?_⟩
  · intro hg bs us v hpre hus hexec hsleep
    obtain ⟨cs, hcs⟩ := hpre
    subst hcs
    obtain ⟨u, hu, -⟩ := exec_append.mp h
    have hgap : AllSteps step GapFree init (bs ++ us) :=
      (allSteps_append hu).mpr ⟨((allSteps_append hu).mp hg).1, gapFree_updater hus u⟩
    exact (wakeInv_exec hexec hgap).sleeping hsleep
  · intro hsleep
    by_contra hng
    -- the invariant holds up to the first command in a gap, and that one is stranded
    obtain ⟨bs, e, cs, u, v, hes, hu, hbs, he, hv, -⟩ := exec_breaks h hng
    subst hes
    have hi := wakeInv_exec hu hbs
    cases e with
    | isr c =>
      simp only [GapFree, Classical.not_imp, not_not] at he
      obtain ⟨us, x, hus, hexec, hs, hne⟩ := gap_strands hi he.1 he.2 hv
      refine hne (hsleep (bs ++ [.isr c]) us x ?_ hus ?_ hs)
      · exact ⟨cs, by simp⟩
      · exact exec_append.mpr ⟨v, exec_snoc.mpr ⟨u, hu, hv⟩, hexec⟩
    | updater expired => exact he trivial
    | timeOut => exact he trivial
    | suspendOther => exact he trivial
    | resumeOther => exact he trivial

/-- A `'U'` that finds the updater asleep. -/
def wokenCommand : List Event := List.replicate 10 (.updater false) ++ [.isr Window.byteU]

/-- A `'U'` in the gap, after which the updater goes to sleep. -/
def strandedCommand : List Event :=
  List.replicate 5 (.updater false) ++ .isr Window.byteU :: List.replicate 5 (.updater false)

theorem gap_free_iff_no_lost_wakeup_woken :
    AllSteps step GapFree init wokenCommand ↔
      ∀ bs us v, bs <+: wokenCommand → (∀ e ∈ us, IsUpdater e) → exec step init (bs ++ us) = some v →
        Sleeping v → v.xUpdateNQueue.contents = [] :=
  gap_free_iff_no_lost_wakeup (w := (exec step init wokenCommand).getD init) (by rfl)

/-- After `strandedCommand` the updater sleeps and the 2 it should store is in the queue. -/
theorem wakeup_lost :
    ¬ ∀ es w, exec step init es = some w → Sleeping w → w.xUpdateNQueue.contents = [] := by
  intro h
  have hrun : exec step init strandedCommand = some ((exec step init strandedCommand).getD init) := by rfl
  have hsleep : Sleeping ((exec step init strandedCommand).getD init) :=
    ⟨by decide, by decide, by decide, by decide, by decide, by decide⟩
  exact absurd (h strandedCommand _ hrun hsleep) (by decide)

end WindowFilter.Kernel
