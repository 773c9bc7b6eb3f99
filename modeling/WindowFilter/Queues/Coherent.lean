import WindowFilter.Queues.Fits

/- What holds in every state of a system of tasks and queues (`coherent_exec`): the calls
   and the scheduler agree (`Matches`), and a queue is locked while the running task is
   between `prvLockQueue` and `prvUnlockQueue` on it, and at no other time.

   It follows that a call is never stuck (`calls_go_on`): whatever it asks of `tasks.c`, it
   asks where that may be asked; and that no two calls have a queue locked at once
   (`one_call_locks`). -/
namespace WindowFilter.Queues
open Steps
open Kernel (Queue_t queueUNLOCKED queueLOCKED_UNMODIFIED Leaving)
open Scheduler (Priority Task)

variable {τ κ α : Type} {uxPriority : τ → Priority} {spare : κ → Nat}

def Waiting.xQueue : Waiting κ → κ
  | .xTasksWaitingToSend xQueue | .xTasksWaitingToReceive xQueue => xQueue

/-- The lock count that stands for wake-ups of the list `l`. -/
def lockOf {n : Nat} (queue : Queue_t α Empty n) : Waiting κ → Int
  | .xTasksWaitingToSend _ => queue.cRxLock
  | .xTasksWaitingToReceive _ => queue.cTxLock

def State.lock (s : State τ κ α uxPriority spare) (l : Waiting κ) : Int := lockOf (s.queues l.xQueue) l

/-- The call has locked the queue for the list `l`. -/
def Holds (l : Waiting κ) : Option (Call κ α) → Prop
  | none => False
  | some c => c.request.xQueue = l.xQueue ∧ c.pc.holds l = true

/-- In a system of `n` tasks. A lock count is an `int8_t`, and counts up to the number of
tasks. -/
structure Coherent (idle : τ) (n : Nat) (s : State τ κ α uxPriority spare) : Prop where
  agree : Matches idle n s.call s.sched
  locked : n ≤ 127 → ∀ l, Holds l (s.call s.sched.pxCurrentTCB) → 0 ≤ s.lock l ∧ s.lock l ≤ 127
  unlocked : ∀ l, ¬ Holds l (s.call s.sched.pxCurrentTCB) → s.lock l = queueUNLOCKED

theorem Request.waitsIn_xQueue (r : Request κ α) : r.waitsIn.xQueue = r.xQueue := by
  cases r with
  | send => rfl
  | receive => rfl

/-- A task that has locked a queue is the running one. -/
theorem Matches.holds {idle : τ} {n : Nat} {call : τ → Option (Call κ α)} {sched : Scheduler.State τ (Waiting κ) uxPriority}
    (h : Matches idle n call sched) {l : Waiting κ} {t : τ} (ht : Holds l (call t)) :
    t = sched.pxCurrentTCB ∧ sched.uxSchedulerSuspended = 1 := by
  cases hc : call t with
  | none =>
    rw [hc] at ht
    exact ht.elim
  | some c =>
    rw [hc] at ht
    exact (h.fits hc).inside (Pc.inSection_of_holds ht.2)

variable [DecidableEq τ] [DecidableEq κ] {idle : τ} {n : Nat} {s s' : State τ κ α uxPriority spare}

/-! ## Queues -/

omit [DecidableEq τ] in
theorem lock_update {l : Waiting κ} {q : κ} {queue : Queue_t α Empty (spare q + 1)} :
    State.lock { s with queues := Function.update s.queues q queue } l =
      if l.xQueue = q then lockOf queue l else s.lock l := by
  show lockOf (Function.update s.queues q queue l.xQueue) l = _
  split
  · next hq =>
    subst hq
    rw [Function.update_self]
  · next hq =>
    rw [Function.update_of_ne hq]
    rfl

omit [DecidableEq τ] in
theorem lock_enqueue (q : κ) (x : α) (h : (s.queues q).uxMessagesWaiting < spare q + 1) (l : Waiting κ) :
    (enqueue q x s h).lock l = s.lock l := by
  refine (lock_update (s := s)).trans ?_
  split
  · next hq =>
    subst hq
    cases l with
    | xTasksWaitingToSend => rfl
    | xTasksWaitingToReceive => rfl
  · rfl

omit [DecidableEq τ] in
theorem lock_dequeue (q : κ) (h : 0 < (s.queues q).uxMessagesWaiting) (l : Waiting κ) :
    (dequeue q s h).lock l = s.lock l := by
  refine (lock_update (s := s)).trans ?_
  split
  · next hq =>
    subst hq
    cases l with
    | xTasksWaitingToSend => rfl
    | xTasksWaitingToReceive => rfl
  · rfl

omit [DecidableEq τ] in
theorem lock_prvLockQueue (q : κ) (hfree : ∀ l : Waiting κ, s.lock l = queueUNLOCKED) (l : Waiting κ) :
    (prvLockQueue q s).lock l = if l.xQueue = q then queueLOCKED_UNMODIFIED else queueUNLOCKED := by
  refine (lock_update (s := s)).trans ?_
  split
  · next hq =>
    subst hq
    have hl := hfree l
    cases l with
    | xTasksWaitingToSend => exact if_pos hl
    | xTasksWaitingToReceive => exact if_pos hl
  · exact hfree l

omit [DecidableEq τ] in
/-- `cTxLock` counts for the receivers only. -/
theorem lockOf_setTx {q : κ} {cTxLock : Int} {k : Waiting κ} (hk : k.xQueue = q) :
    lockOf { s.queues q with cTxLock := cTxLock } k = if k = .xTasksWaitingToReceive q then cTxLock else s.lock k := by
  cases k with
  | xTasksWaitingToReceive r =>
    cases hk
    exact (if_pos rfl).symm
  | xTasksWaitingToSend r =>
    have hne : Waiting.xTasksWaitingToSend r ≠ .xTasksWaitingToReceive q := by
      intro h
      cases h
    cases hk
    exact (if_neg hne).symm

omit [DecidableEq τ] in
/-- `cRxLock` counts for the senders only. -/
theorem lockOf_setRx {q : κ} {cRxLock : Int} {k : Waiting κ} (hk : k.xQueue = q) :
    lockOf { s.queues q with cRxLock := cRxLock } k = if k = .xTasksWaitingToSend q then cRxLock else s.lock k := by
  cases k with
  | xTasksWaitingToSend r =>
    cases hk
    exact (if_pos rfl).symm
  | xTasksWaitingToReceive r =>
    have hne : Waiting.xTasksWaitingToReceive r ≠ .xTasksWaitingToSend q := by
      intro h
      cases h
    cases hk
    exact (if_neg hne).symm

theorem wakeWaiting_current (l : Waiting κ) (sched : Scheduler.State τ (Waiting κ) uxPriority) :
    (wakeWaiting l sched).pxCurrentTCB = sched.pxCurrentTCB := by
  cases hl : sched.events.lists (.event l) with
  | nil => simp only [wakeWaiting, hl]
  | cons t ts =>
    simp only [wakeWaiting, hl, Scheduler.xTaskRemoveFromEventList_eq]
    split
    · rfl
    · rfl

theorem setCall_wake (c : Option (Call κ α)) (l : Waiting κ) (s : State τ κ α uxPriority spare) :
    setCall c (wake l s) = wake l (setCall c s) := by
  show ({ wake l s with call := Function.update s.call (wakeWaiting l s.sched).pxCurrentTCB c } : State _ _ _ _ _) = _
  rw [wakeWaiting_current]
  rfl

/-! ## What keeps coherence -/

omit [DecidableEq τ] [DecidableEq κ] in
/-- Steps of the scheduler and changes of a queue that leave the calls and the locks alone. -/
theorem Coherent.frame (h : Coherent idle n s) (hagree : Matches idle n s'.call s'.sched) (hcall : s'.call = s.call)
    (hlock : ∀ l, s'.lock l = s.lock l) : Coherent idle n s' := by
  have hholds : ∀ l, Holds l (s'.call s'.sched.pxCurrentTCB) ↔ Holds l (s.call s.sched.pxCurrentTCB) := by
    intro l
    rw [hcall] at hagree ⊢
    refine ⟨fun hl => ?_, fun hl => ?_⟩
    · rwa [(h.agree.holds hl).1] at hl
    · rwa [(hagree.holds hl).1] at hl
  refine ⟨hagree, ?_, ?_⟩
  · intro hn l hl
    rw [hlock]
    exact h.locked hn l ((hholds l).mp hl)
  · intro l hl
    rw [hlock]
    exact h.unlocked l (fun hl' => hl ((hholds l).mpr hl'))

omit [DecidableEq τ] [DecidableEq κ] in
/-- The call goes on with the same locks. -/
theorem Coherent.call (h : Coherent idle n s) {c : Option (Call κ α)} (hagree : Matches idle n s'.call s'.sched)
    (hcall : s'.call s'.sched.pxCurrentTCB = c) (hholds : ∀ l, Holds l c ↔ Holds l (s.call s.sched.pxCurrentTCB))
    (hlock : ∀ l, s'.lock l = s.lock l) : Coherent idle n s' := by
  refine ⟨hagree, ?_, ?_⟩
  · intro hn l hl
    rw [hlock]
    rw [hcall] at hl
    exact h.locked hn l ((hholds l).mp hl)
  · intro l hl
    rw [hlock]
    rw [hcall] at hl
    exact h.unlocked l (fun hl' => hl ((hholds l).mpr hl'))

omit [DecidableEq κ] in
theorem setCall_self (c : Option (Call κ α)) (s : State τ κ α uxPriority spare) :
    (setCall c s).call (setCall c s).sched.pxCurrentTCB = c :=
  Function.update_self _ _ _

omit [DecidableEq κ] in
theorem coherent_set (h : Coherent idle n s) {c : Option (Call κ α)} (hc : Agrees idle s.sched s.sched.pxCurrentTCB c)
    (hholds : ∀ l, Holds l c ↔ Holds l (s.call s.sched.pxCurrentTCB)) : Coherent idle n (setCall c s) :=
  h.call (matches_set h.agree hc) (setCall_self c s) hholds (fun _ => rfl)

/-- The call takes a step of the scheduler. -/
theorem coherent_go (h : Coherent idle n s) {e : Scheduler.Event (Waiting κ)} {c : Option (Call κ α)}
    (hgo : goOn idle e c s = some s') (he : e ≠ .pendSV)
    (hc : ∀ sched', Scheduler.step idle s.sched e = some sched' → Agrees idle sched' s.sched.pxCurrentTCB c)
    (hholds : ∀ l, Holds l c ↔ Holds l (s.call s.sched.pxCurrentTCB)) : Coherent idle n s' := by
  obtain ⟨sched', hs, rfl⟩ := Option.map_eq_some_iff.mp hgo
  have hcurrent := Scheduler.current_kept h.agree.good.filed.count_pos (Scheduler.step_cases hs) (.inl he)
  refine Coherent.call h
    (matches_go h.agree (Scheduler.step_cases hs) he (hc sched' hs)) ?_ hholds (fun _ => rfl)
  show Function.update s.call s.sched.pxCurrentTCB c sched'.pxCurrentTCB = c
  rw [hcurrent, Function.update_self]

theorem coherent_wake (h : Coherent idle n s) (l : Waiting κ) : Coherent idle n (wake l s) :=
  h.frame (matches_wake h.agree l) rfl (fun _ => rfl)

omit [DecidableEq τ] in
theorem coherent_enqueue (h : Coherent idle n s) (q : κ) (x : α) (hroom : (s.queues q).uxMessagesWaiting < spare q + 1) :
    Coherent idle n (enqueue q x s hroom) :=
  h.frame h.agree rfl (lock_enqueue q x hroom)

omit [DecidableEq τ] in
theorem coherent_dequeue (h : Coherent idle n s) (q : κ) (hitem : 0 < (s.queues q).uxMessagesWaiting) :
    Coherent idle n (dequeue q s hitem) :=
  h.frame h.agree rfl (lock_dequeue q hitem)

omit [DecidableEq τ] [DecidableEq κ] in
theorem coherent_returns (h : Coherent idle n s) (r : Request κ α) (x : Result α) : Coherent idle n (returns r x s) :=
  ⟨h.agree, h.locked, h.unlocked⟩

/-! ## Interrupts -/

/-- A lock count goes up by one, or has reached the number of tasks. -/
theorem prvIncrementQueueLock_eq {cLock : Int} {n : Nat} (hle : 0 ≤ cLock ∧ cLock ≤ 127) (hn : n ≤ 127) :
    prvIncrementQueueLock cLock n = if cLock < n then cLock + 1 else cLock := by
  rw [prvIncrementQueueLock, int8]
  split
  · rw [if_pos (by omega)]
    omega
  · rw [if_neg (by omega)]

omit [DecidableEq τ] in
/-- What an interrupt does to a locked queue. -/
theorem coherent_count (h : Coherent idle n s) {q : κ} {queue : Queue_t α Empty (spare q + 1)} {l : Waiting κ}
    (hq : l.xQueue = q) (hlocked : s.lock l ≠ queueUNLOCKED)
    (hl : lockOf queue l = prvIncrementQueueLock (s.lock l) s.sched.uxCurrentNumberOfTasks)
    (hother : ∀ k : Waiting κ, k.xQueue = q → k ≠ l → lockOf queue k = s.lock k) :
    Coherent idle n { s with queues := Function.update s.queues q queue } := by
  have hholds : Holds l (s.call s.sched.pxCurrentTCB) := by
    by_contra hnot
    exact hlocked (h.unlocked l hnot)
  refine ⟨h.agree, ?_, ?_⟩
  · intro hn k hk
    rw [lock_update]
    split
    · next hkq =>
      by_cases hkl : k = l
      · subst hkl
        have hbounds := h.locked hn k hholds
        have hfew := le_trans h.agree.few hn
        rw [hl, prvIncrementQueueLock_eq hbounds hfew]
        split
        · omega
        · exact hbounds
      · rw [hother k hkq hkl]
        exact h.locked hn k hk
    · exact h.locked hn k hk
  · intro k hk
    rw [lock_update]
    split
    · next hkq =>
      by_cases hkl : k = l
      · subst hkl
        exact absurd hholds hk
      · rw [hother k hkq hkl]
        exact h.unlocked k hk
    · exact h.unlocked k hk

theorem coherent_sendFromISR (h : Coherent idle n s) (q : κ) (x : α) :
    Coherent idle n (xQueueGenericSendFromISR q x s).1 := by
  rw [xQueueGenericSendFromISR]
  split
  · next hroom =>
    have hput := coherent_enqueue h q x hroom
    have hkept := lock_enqueue q x hroom (.xTasksWaitingToReceive q)
    show Coherent idle n (ite _ _ _ : State τ κ α uxPriority spare × Result α).1
    split
    · exact coherent_wake hput _
    · next hlocked =>
      refine coherent_count (l := .xTasksWaitingToReceive q) hput rfl (hkept ▸ hlocked) ?_ ?_
      · rw [hkept]
        rfl
      · intro k hkq hne
        rw [lockOf_setTx hkq, if_neg hne]
  · exact h

theorem coherent_receiveFromISR (h : Coherent idle n s) (q : κ) : Coherent idle n (xQueueReceiveFromISR q s).1 := by
  rw [xQueueReceiveFromISR]
  split
  · next hitem =>
    have hgot := coherent_dequeue h q hitem
    have hkept := lock_dequeue q hitem (.xTasksWaitingToSend q)
    show Coherent idle n (ite _ _ _ : State τ κ α uxPriority spare × Result α).1
    split
    · exact coherent_wake hgot _
    · next hlocked =>
      refine coherent_count (l := .xTasksWaitingToSend q) hgot rfl (hkept ▸ hlocked) ?_ ?_
      · rw [hkept]
        rfl
      · intro k hkq hne
        rw [lockOf_setRx hkq, if_neg hne]
  · exact h

/-! ## The critical sections of a call -/

section
variable {c : Call κ α}

omit [DecidableEq τ] [DecidableEq κ] in
/-- Before `prvLockQueue` and after `prvUnlockQueue` a call holds nothing. -/
theorem holds_iff_false {l : Waiting κ} (hpc : c.pc.holds l = false) : ¬ Holds l (some c) :=
  fun hl => absurd (hl.2.symm.trans hpc) nofun

omit [DecidableEq τ] [DecidableEq κ] in
theorem holds_congr {l : Waiting κ} {c' : Call κ α} (hrequest : c'.request = c.request) (hpc : c'.pc.holds l = c.pc.holds l) :
    Holds l (some c') ↔ Holds l (some c) := by
  rw [Holds, Holds, hrequest, hpc]

omit [DecidableEq κ] in
/-- The queue was full, or empty. -/
theorem coherent_refuse (h : Coherent idle n s) (hc : s.call s.sched.pxCurrentTCB = some c) (hpc : c.pc = .check)
    (hpend : s.sched.pendSV = false) : Coherent idle n (refuse c s) := by
  have hfits := h.agree.fits hc
  have hwoken := hfits.woken h.agree.good hpend hpc
  have hnone : ∀ l : Waiting κ, ¬ Holds l (some c) := fun l => holds_iff_false (by rw [hpc]; rfl)
  rw [refuse]
  split
  · apply coherent_returns
    apply coherent_set h (c := none) (hfits.returns hwoken (by rw [hpc]; nofun))
    intro l
    rw [hc]
    exact ⟨False.elim, fun hl => absurd hl (hnone l)⟩
  · next hticks =>
    apply coherent_set h
    · apply hfits.goesOn hwoken
      · rw [hpc]; rfl
      · rw [hpc]; rfl
      · rw [hpc]; rfl
      · exact id
      · exact fun _ => ⟨hticks, Option.some_ne_none _⟩
      · nofun
      · nofun
    · intro l
      rw [hc]
      exact ⟨fun hl => absurd hl (holds_iff_false rfl), fun hl => absurd hl (hnone l)⟩

/-- The call has its item in the queue, or out of it, and returns. -/
theorem coherent_done (h : Coherent idle n s) (hc : s.call s.sched.pxCurrentTCB = some c) (hpc : c.pc = .check)
    (hpend : s.sched.pendSV = false) (l : Waiting κ) (x : Result α) : Coherent idle n (finish c x (wake l s)) := by
  have hfits := h.agree.fits hc
  apply coherent_returns
  rw [setCall_wake]
  apply coherent_wake
  apply coherent_set h (c := none) (hfits.returns (hfits.woken h.agree.good hpend hpc) (by rw [hpc]; nofun))
  intro k
  rw [hc]
  exact ⟨False.elim, fun hk => absurd hk (holds_iff_false (by rw [hpc]; rfl))⟩

theorem coherent_check (h : Coherent idle n s) (hc : s.call s.sched.pxCurrentTCB = some c) (hpc : c.pc = .check)
    (hpend : s.sched.pendSV = false) : Coherent idle n (check c s) := by
  rw [check]
  split
  · split
    · next q x hrequest hroom => exact coherent_done (coherent_enqueue h q x hroom) hc hpc hpend _ _
    · exact coherent_refuse h hc hpc hpend
  · split
    · next q hrequest hitem => exact coherent_done (coherent_dequeue h q hitem) hc hpc hpend _ _
    · exact coherent_refuse h hc hpc hpend

/-- `prvLockQueue` on a queue that nobody has locked. -/
theorem coherent_lock (h : Coherent idle n s) (hc : s.call s.sched.pxCurrentTCB = some c) (hpc : c.pc = .lock) :
    Coherent idle n (setCall (some { c with pc := .checkTimeOut }) (prvLockQueue c.request.xQueue s)) := by
  have hfits := h.agree.fits hc
  have hfree : ∀ l : Waiting κ, s.lock l = queueUNLOCKED := by
    intro l
    apply h.unlocked l
    rw [hc]
    exact holds_iff_false (by rw [hpc]; rfl)
  have hlock := lock_prvLockQueue c.request.xQueue hfree
  refine ⟨matches_set h.agree ?_, ?_, ?_⟩
  · apply hfits.goesOn (hfits.outOfLists (by rw [hpc]; rfl))
    · rw [hpc]; rfl
    · rw [hpc]; rfl
    · rw [hpc]; rfl
    · exact id
    · exact fun _ => hfits.timed (by rw [hpc]; rfl)
    · nofun
    · nofun
  · intro _ l hl
    rw [setCall_self] at hl
    show 0 ≤ (prvLockQueue c.request.xQueue s).lock l ∧ (prvLockQueue c.request.xQueue s).lock l ≤ 127
    rw [hlock, if_pos hl.1.symm]
    decide
  · intro l hl
    rw [setCall_self] at hl
    show (prvLockQueue c.request.xQueue s).lock l = queueUNLOCKED
    rw [hlock, if_neg (fun hq => hl ⟨hq.symm, rfl⟩)]

omit [DecidableEq τ] [DecidableEq κ] in
/-- Through `prvUnlockQueue`. -/
theorem Fits.unlocks {sched : Scheduler.State τ (Waiting κ) uxPriority} {t : τ} (h : Fits idle sched t c) {a : Leaving}
    {pc : Pc} (hpc : (c.pc = .unlockTx a ∧ pc = .unlockRx a) ∨ (c.pc = .unlockRx a ∧ pc = .resume a)) :
    Fits idle sched t { c with pc := pc } := by
  have hin : c.pc.inSection = true := by
    rcases hpc with ⟨hc, -⟩ | ⟨hc, -⟩
    · rw [hc]; rfl
    · rw [hc]; rfl
  obtain ⟨hseen, hin', hwaiting, hblocked, hout, hleft, hdelay⟩ : c.pc.seen c.xTicksToWait = pc.seen c.xTicksToWait ∧
      pc.inSection = true ∧ c.pc.waiting = pc.waiting ∧ c.pc.blocked = pc.blocked ∧ pc.setOut = false ∧
      ¬ (pc = .look ∨ pc = .place) ∧ pc ≠ .delay := by
    rcases hpc with ⟨hc, rfl⟩ | ⟨hc, rfl⟩
    · rw [hc]
      cases a with
      | block | retry | timedOut => exact ⟨rfl, rfl, rfl, rfl, rfl, nofun, nofun⟩
    · rw [hc]
      cases a with
      | block | retry | timedOut => exact ⟨rfl, rfl, rfl, rfl, rfl, nofun, nofun⟩
  refine ⟨h.counter.trans hseen, fun _ => h.inside hin, fun _ hnot => absurd (hnot.symm.trans hin') nofun,
    fun hset => absurd (hset.symm.trans hout) nofun, fun hlook => absurd hlook hleft, h.notIdle, ?_,
    fun hpc => absurd hpc hdelay, ?_, h.standing⟩
  · intro l hl
    rw [← hwaiting]
    exact h.waits l hl
  · rw [← hblocked]
    exact h.awake

/-- Either half of `prvUnlockQueue`: the tasks of the list `l` are woken, and the queue is
unlocked for it. -/
theorem coherent_unlock (h : Coherent idle n s) (hc : s.call s.sched.pxCurrentTCB = some c) {a : Leaving} {pc : Pc}
    (hpc : (c.pc = .unlockTx a ∧ pc = .unlockRx a) ∨ (c.pc = .unlockRx a ∧ pc = .resume a)) {l : Waiting κ}
    {queue : Queue_t α Empty (spare c.request.xQueue + 1)}
    (hqueue : ∀ k : Waiting κ, k.xQueue = c.request.xQueue → lockOf queue k = if k = l then queueUNLOCKED else s.lock k)
    (hheld : ∀ k : Waiting κ, k.xQueue = c.request.xQueue → (pc.holds k = true ↔ c.pc.holds k = true ∧ k ≠ l)) (m : Nat) :
    Coherent idle n (setCall (some { c with pc := pc })
      { s with sched := wakeCounted l m s.sched, queues := Function.update s.queues c.request.xQueue queue }) := by
  have hin : c.pc.inSection = true := by
    rcases hpc with ⟨hc, -⟩ | ⟨hc, -⟩
    · rw [hc]; rfl
    · rw [hc]; rfl
  obtain ⟨-, hone⟩ := (h.agree.fits hc).inside hin
  have hagree : Matches idle n s.call (wakeCounted l m s.sched) := matches_unlock h.agree l m (by rw [hone]; exact Nat.one_pos)
  -- the running task of the state behind the loop is still the one in the section
  have hcurrent : s.sched.pxCurrentTCB = (wakeCounted l m s.sched).pxCurrentTCB := ((hagree.fits hc).inside hin).1
  have hlock : ∀ k : Waiting κ, State.lock { s with queues := Function.update s.queues c.request.xQueue queue } k =
      if k.xQueue = c.request.xQueue ∧ k = l then queueUNLOCKED else s.lock k := by
    intro k
    rw [lock_update]
    by_cases hq : k.xQueue = c.request.xQueue
    · rw [if_pos hq, hqueue k hq]
      simp only [hq, true_and]
    · rw [if_neg hq, if_neg (fun hk => hq hk.1)]
  refine ⟨?_, ?_, ?_⟩
  · show Matches idle n (Function.update s.call (wakeCounted l m s.sched).pxCurrentTCB _) _
    apply matches_set hagree
    rw [← hcurrent]
    exact (hagree.fits hc).unlocks hpc
  · intro hn k hk
    rw [setCall_self] at hk
    show 0 ≤ State.lock { s with queues := Function.update s.queues c.request.xQueue queue } k ∧
      State.lock { s with queues := Function.update s.queues c.request.xQueue queue } k ≤ 127
    obtain ⟨hholds, hne⟩ := (hheld k hk.1.symm).mp hk.2
    rw [hlock, if_neg (fun hkl => hne hkl.2)]
    apply h.locked hn k
    rw [hc]
    exact ⟨hk.1, hholds⟩
  · intro k hk
    rw [setCall_self] at hk
    show State.lock { s with queues := Function.update s.queues c.request.xQueue queue } k = queueUNLOCKED
    rw [hlock]
    split
    · rfl
    · next hkl =>
      apply h.unlocked k
      rw [hc]
      intro hholds
      exact hk ⟨hholds.1, (hheld k hholds.1.symm).mpr ⟨hholds.2, fun hl => hkl ⟨hholds.1.symm, hl⟩⟩⟩

theorem coherent_unlockTx (h : Coherent idle n s) (hc : s.call s.sched.pxCurrentTCB = some c) {a : Leaving}
    (hpc : c.pc = .unlockTx a) :
    Coherent idle n (setCall (some { c with pc := .unlockRx a }) (unlockTx c.request.xQueue s)) := by
  refine coherent_unlock (l := .xTasksWaitingToReceive c.request.xQueue) h hc (.inl ⟨hpc, rfl⟩) ?_ ?_ _
  · exact fun k hk => lockOf_setTx hk
  · intro k hk
    rw [hpc]
    cases k with
    | xTasksWaitingToReceive q =>
      cases hk
      exact ⟨fun hholds => absurd hholds Bool.false_ne_true, fun hholds => absurd rfl hholds.2⟩
    | xTasksWaitingToSend q => simp [Pc.holds]

theorem coherent_unlockRx (h : Coherent idle n s) (hc : s.call s.sched.pxCurrentTCB = some c) {a : Leaving}
    (hpc : c.pc = .unlockRx a) :
    Coherent idle n (setCall (some { c with pc := .resume a }) (unlockRx c.request.xQueue s)) := by
  refine coherent_unlock (l := .xTasksWaitingToSend c.request.xQueue) h hc (.inr ⟨hpc, rfl⟩) ?_ ?_ _
  · exact fun k hk => lockOf_setRx hk
  · intro k hk
    rw [hpc]
    cases k with
    | xTasksWaitingToSend q =>
      cases hk
      exact ⟨fun hholds => absurd hholds Bool.false_ne_true, fun hholds => absurd rfl hholds.2⟩
    | xTasksWaitingToReceive q => simp [Pc.holds]

/-- `xTaskResumeAll`, and the yield after it where it has not yielded itself. -/
theorem resume_true {sched sched' : Scheduler.State τ (Waiting κ) uxPriority}
    (hs : Scheduler.step idle sched (.resume true) = some sched') :
    sched' = if (Scheduler.xTaskResumeAll sched).2 then (Scheduler.xTaskResumeAll sched).1
      else Scheduler.setPc .yielding (Scheduler.xTaskResumeAll sched).1 := by
  simp only [Scheduler.step] at hs
  split at hs
  · cases hs
    cases (Scheduler.xTaskResumeAll sched).2 with
    | true => rfl
    | false => rfl
  · cases hs

theorem resume_false {sched sched' : Scheduler.State τ (Waiting κ) uxPriority}
    (hs : Scheduler.step idle sched (.resume false) = some sched') : sched' = (Scheduler.xTaskResumeAll sched).1 := by
  simp only [Scheduler.step] at hs
  split at hs
  · cases hs
    rfl
  · cases hs

theorem coherent_resume (h : Coherent idle n s) (hc : s.call s.sched.pxCurrentTCB = some c) {a : Leaving}
    (hpc : c.pc = .resume a) (hs : criticalSection idle c s = some s') : Coherent idle n s' := by
  have hfits := h.agree.fits hc
  have hgood := h.agree.good
  have hcount := hgood.filed.count_pos
  obtain ⟨hcurrent, hpcs⟩ := Scheduler.xTaskResumeAll_frame hcount
  have hnone : ∀ l : Waiting κ, ¬ Holds l (s.call s.sched.pxCurrentTCB) := by
    intro l
    rw [hc]
    exact holds_iff_false (by rw [hpc]; rfl)
  have hcounter : s.sched.pc s.sched.pxCurrentTCB = .running := by
    rw [hfits.counter, hpc]
    rfl
  have hreturned : ∀ l : Waiting κ, Holds l (none : Option (Call κ α)) ↔ Holds l (s.call s.sched.pxCurrentTCB) :=
    fun l => ⟨False.elim, fun hl => absurd hl (hnone l)⟩
  have hgoes : ∀ {pc : Pc}, pc.inSection = false → ∀ l : Waiting κ,
      Holds l (some { c with pc := pc }) ↔ Holds l (s.call s.sched.pxCurrentTCB) := by
    intro pc hout l
    refine ⟨fun hl => absurd (Pc.inSection_of_holds hl.2) ?_, fun hl => absurd hl (hnone l)⟩
    rw [hout]
    exact Bool.false_ne_true
  have hplain : ∀ {pc : Pc}, pc = .check ∨ pc = .lookTimedOut → a ≠ .block ∨ pc.waiting = true →
      Fits idle (Scheduler.xTaskResumeAll s.sched).1 s.sched.pxCurrentTCB { c with pc := pc } := by
    intro pc hto hwaiting
    apply fits_resume hfits hgood hpc _ ⟨rfl, rfl, rfl, rfl⟩ (hto.imp id .inr) (fun hblock => hwaiting.resolve_left (· hblock))
    rw [hpcs, hcounter]
    rcases hto with rfl | rfl
    · rfl
    · rfl
  have hresume : ∀ thenYield, (.resume thenYield : Scheduler.Event (Waiting κ)) ≠ .pendSV := by
    intro thenYield he
    cases he
  cases a with
  | block =>
    simp only [criticalSection, hpc] at hs
    apply coherent_go h hs (hresume _)
    · intro sched' hstep
      rw [resume_true hstep]
      cases (Scheduler.xTaskResumeAll s.sched).2 with
      | true => exact hplain (.inl rfl) (.inr rfl)
      | false =>
        show Fits idle (Scheduler.setPc .yielding _) _ { c with pc := .yield }
        refine fits_resume hfits hgood hpc ?_ ⟨rfl, rfl, rfl, rfl⟩ (.inr (.inl rfl)) (fun _ => rfl)
        rw [Scheduler.setPc, hcurrent]
        exact Function.update_self _ _ _
    · apply hgoes
      split
      · rfl
      · rfl
  | retry =>
    simp only [criticalSection, hpc] at hs
    apply coherent_go h hs (hresume _)
    · intro sched' hstep
      rw [resume_false hstep]
      exact hplain (.inl rfl) (.inr rfl)
    · exact hgoes rfl
  | timedOut =>
    cases hr : c.request with
    | send q x =>
      simp only [criticalSection, hpc, hr] at hs
      obtain ⟨u, hu, rfl⟩ := Option.map_eq_some_iff.mp hs
      apply coherent_returns
      apply coherent_go h hu (hresume _)
      · intro sched' hstep
        rw [resume_false hstep]
        -- who has timed out is in no event list, and is put in none
        have hfree := hfits.outOfLists (by rw [hpc]; rfl)
        refine ⟨?_, ?_⟩
        · exact (Scheduler.container_resume hcount _).elim id (fun hkept => hkept.trans hfree)
        · intro x
          rw [hpcs, hcounter]
          intro hplaced
          cases hplaced
      · exact hreturned
    | receive q =>
      simp only [criticalSection, hpc, hr] at hs
      rw [← hr] at hs
      apply coherent_go h hs (hresume _)
      · intro sched' hstep
        rw [resume_false hstep]
        exact hplain (.inr rfl) (.inl (by decide))
      · exact hgoes rfl

omit [DecidableEq τ] in
/-- A call whose time is not up has time left. -/
theorem timeLeft {d : Scheduler.DelayedLists τ} {xTimeOut : Scheduler.TimeOut_t} {xTicksToWait : UInt32}
    (h : (d.xTaskCheckForTimeOut xTimeOut xTicksToWait).1 = false) :
    (d.xTaskCheckForTimeOut xTimeOut xTicksToWait).2.2 ≠ 0 := by
  simp only [Scheduler.DelayedLists.xTaskCheckForTimeOut] at h ⊢
  split at h
  · cases h
  · next hround =>
    split at h
    · next hearly =>
      rw [if_neg hround, if_pos hearly]
      intro (hzero : xTicksToWait - (d.xTickCount - xTimeOut.xTimeOnEntering) = 0)
      have hlt := UInt32.lt_iff_toNat_lt.mp hearly
      have hleft := UInt32.toNat_sub_of_le _ _ (UInt32.le_of_lt hearly)
      rw [hzero] at hleft
      have : (0 : UInt32).toNat = 0 := rfl
      omega
    · cases h

theorem coherent_criticalSection (h : Coherent idle n s) (hc : s.call s.sched.pxCurrentTCB = some c)
    (hpend : s.sched.pendSV = false) (hs : criticalSection idle c s = some s') : Coherent idle n s' := by
  have hfits := h.agree.fits hc
  have hgood := h.agree.good
  have hsame : ∀ {c' : Call κ α}, c'.request = c.request → (∀ l : Waiting κ, c'.pc.holds l = c.pc.holds l) →
      ∀ l : Waiting κ, Holds l (some c') ↔ Holds l (s.call s.sched.pxCurrentTCB) := by
    intro c' hrequest hholds l
    rw [hc]
    exact holds_congr hrequest (hholds l)
  obtain ⟨r, xTicksToWait, xTimeOut, pc⟩ := c
  cases pc with
  | check =>
    cases hs
    exact coherent_check h hc rfl hpend
  | suspend =>
    apply coherent_go h hs nofun _ (hsame rfl (fun _ => rfl))
    intro sched' hstep
    exact fits_suspend hfits hgood rfl (Scheduler.step_cases hstep)
  | lock =>
    cases hs
    exact coherent_lock h hc rfl
  | checkTimeOut =>
    obtain ⟨o, rfl, rfl⟩ := Option.map_eq_some_iff.mp hs
    have htimed := hfits.timed rfl
    cases hup : (s.sched.delayed.xTaskCheckForTimeOut o xTicksToWait).1 with
    | true =>
      simp only [hup, if_true]
      apply coherent_set h
      · exact hfits.goesOn (hfits.outOfLists rfl) rfl rfl rfl (fun _ => htimed.1) nofun nofun nofun
      · exact hsame rfl (fun _ => rfl)
    | false =>
      simp only [hup, Bool.false_eq_true, if_false]
      apply coherent_set h
      · exact hfits.goesOn (hfits.outOfLists rfl) rfl rfl rfl (fun _ => htimed.1) nofun (fun _ => timeLeft hup) nofun
      · exact hsame rfl (fun _ => rfl)
  | look =>
    cases hs
    have hleft := hfits.left (.inl rfl)
    dsimp only
    cases mustWait s r with
    | true =>
      apply coherent_set h
      · exact hfits.goesOn (hfits.outOfLists rfl) rfl rfl rfl id nofun (fun _ => hleft) nofun
      · exact hsame rfl (fun _ => rfl)
    | false =>
      apply coherent_set h
      · exact hfits.goesOn (hfits.outOfLists rfl) rfl rfl rfl id nofun nofun nofun
      · exact hsame rfl (fun _ => rfl)
  | place =>
    apply coherent_go h hs nofun _ (hsame rfl (fun _ => rfl))
    intro sched' hstep
    exact fits_place hfits rfl (Scheduler.step_cases hstep)
  | delay =>
    apply coherent_go h hs nofun _ (hsame rfl (fun _ => rfl))
    intro sched' hstep
    exact fits_delay hfits rfl (Scheduler.step_cases hstep)
  | unlockTx a =>
    cases hs
    exact coherent_unlockTx h hc rfl
  | unlockRx a =>
    cases hs
    exact coherent_unlockRx h hc rfl
  | resume a => exact coherent_resume h hc rfl hs
  | yield =>
    apply coherent_go h hs nofun _ (hsame rfl (fun _ => rfl))
    intro sched' hstep
    exact fits_yield hfits rfl (Scheduler.step_cases hstep)
  | lookTimedOut =>
    cases hs
    split
    · apply coherent_returns
      apply coherent_set h (c := none) (hfits.returns (hfits.outOfLists rfl) nofun)
      intro l
      rw [hc]
      exact ⟨False.elim, fun hl => absurd hl (holds_iff_false rfl)⟩
    · apply coherent_set h
      · exact hfits.goesOn (hfits.outOfLists rfl) rfl rfl rfl id nofun nofun nofun
      · exact hsame rfl (fun _ => rfl)

end

/-! ## Every run -/

theorem coherent_step {e : Event κ α} (h : Coherent idle n s) (hs : step idle s e = some s') : Coherent idle n s' := by
  cases e with
  | scheduler e =>
    simp only [step] at hs
    split at hs
    · next hguard =>
      obtain ⟨sched', hstep, rfl⟩ := Option.map_eq_some_iff.mp hs
      refine h.frame ?_ rfl (fun _ => rfl)
      rcases hguard with rfl | rfl | ⟨hown, hnone⟩
      · exact matches_interrupt (e := .tick) h.agree trivial hstep
      · exact matches_interrupt (e := .pendSV) h.agree trivial hstep
      · exact matches_own h.agree hown hnone hstep
    · cases hs
  | sendFromISR q x =>
    cases hs
    exact coherent_returns (coherent_sendFromISR h q x) _ _
  | receiveFromISR q =>
    cases hs
    exact coherent_returns (coherent_receiveFromISR h q) _ _
  | sendInISR q x =>
    simp only [step] at hs
    split at hs
    · next hroom =>
      cases hs
      exact coherent_returns (coherent_wake (coherent_enqueue h q x hroom) _) _ _
    · cases hs
  | request r xTicksToWait =>
    simp only [step] at hs
    split at hs
    · next hmay =>
      cases hs
      obtain ⟨hnone, hat, hready, hwait⟩ := hmay
      have hfree := h.agree.free hnone
      apply coherent_set h
      · refine ⟨hat.2, nofun, fun _ _ hticks => (hwait hticks).1, nofun, nofun, fun hticks => (hwait hticks).2, ?_, nofun,
          fun _ _ _ => hready, .inl hready⟩
        intro l hl
        exact absurd (hfree.container.symm.trans hl) nofun
      · intro l
        rw [hnone]
        exact ⟨fun hl => absurd hl (holds_iff_false rfl), False.elim⟩
    · cases hs
  | go =>
    simp only [step] at hs
    split at hs
    · cases hs
    · next hpend =>
      obtain ⟨c, hc, hsection⟩ := Option.bind_eq_some_iff.mp hs
      exact coherent_criticalSection h hc (Bool.eq_false_iff.mpr hpend) hsection

omit [DecidableEq τ] [DecidableEq κ] in
theorem coherent_start (junk : α) {t : τ} {ts : List τ} (hnodup : (t :: ts).Nodup) (hidle : idle ∈ t :: ts) :
    Coherent idle (t :: ts).length (start junk t ts : State τ κ α uxPriority spare) := by
  obtain ⟨hgood, hplaces⟩ := @Scheduler.good_start τ (Waiting κ) uxPriority idle t ts hnodup hidle
  obtain ⟨u, hu, -⟩ := @Scheduler.start_eq τ (Waiting κ) uxPriority t ts
  refine ⟨⟨hgood, ?_, ?_⟩, fun _ l hl => hl.elim, ?_⟩
  · have hcounted := hgood.filed.counted
    rw [hplaces, Multiset.coe_card] at hcounted
    exact le_of_eq hcounted.symm
  · intro v
    show Free (Scheduler.start t ts) v
    rw [hu]
    exact ⟨rfl, nofun⟩
  · intro l _
    cases l with
    | xTasksWaitingToSend q => rfl
    | xTasksWaitingToReceive q => rfl

/-- **The calls, the queues and the scheduler agree** in every run. -/
theorem coherent_exec {junk : α} {t : τ} {ts : List τ} (hnodup : (t :: ts).Nodup) (hidle : idle ∈ t :: ts)
    {es : List (Event κ α)} (h : exec (step idle) (start junk t ts) es = some s) : Coherent idle (t :: ts).length s :=
  exec_inv (I := Coherent idle (t :: ts).length) (fun _ _ _ h hs => coherent_step h hs) h
    (coherent_start junk hnodup hidle)

/-- **One call at a time has a queue locked**, and what interrupts count in its locks fits. -/
theorem one_call_locks {junk : α} {t : τ} {ts : List τ} (hnodup : (t :: ts).Nodup) (hidle : idle ∈ t :: ts)
    (hfew : (t :: ts).length ≤ 127) {es : List (Event κ α)} (h : exec (step idle) (start junk t ts) es = some s)
    (l : Waiting κ) :
    (∀ u, Holds l (s.call u) → u = s.sched.pxCurrentTCB ∧ s.sched.uxSchedulerSuspended = 1 ∧ 0 ≤ s.lock l ∧
      prvIncrementQueueLock (s.lock l) s.sched.uxCurrentNumberOfTasks =
        if s.lock l < s.sched.uxCurrentNumberOfTasks then s.lock l + 1 else s.lock l) ∧
    ((∀ u, ¬ Holds l (s.call u)) → s.lock l = queueUNLOCKED) := by
  have hcoherent := coherent_exec hnodup hidle h
  refine ⟨?_, fun hnobody => hcoherent.unlocked l (hnobody _)⟩
  intro u hu
  obtain ⟨hcurrent, hone⟩ := hcoherent.agree.holds hu
  have hbounds := hcoherent.locked hfew l (hcurrent ▸ hu)
  exact ⟨hcurrent, hone, hbounds.1, prvIncrementQueueLock_eq hbounds (le_trans hcoherent.agree.few hfew)⟩

/-- The receiver has locked the first queue, and an interrupt sends to it. -/
theorem one_call_locks_receiver :
    ∃ s : State Task (Fin 3) Int Task.uxPriority (fun _ => 1),
      exec (step Task.idle) (start 0 .display [.receiver, .idle])
        [.request (.receive 0) 100, .go, .go, .go, .sendFromISR 0 7] = some s ∧ s.lock (.xTasksWaitingToReceive 0) = 1 ∧
      s.sched.pxCurrentTCB = .receiver ∧ s.sched.uxSchedulerSuspended = 1 := by
  have hrun : exec (step Task.idle)
      (start 0 .display [.receiver, .idle] : State Task (Fin 3) Int Task.uxPriority (fun _ => 1))
      [.request (.receive 0) 100, .go, .go, .go, .sendFromISR 0 7] = some _ := rfl
  obtain ⟨hcurrent, hone, -⟩ :=
    (one_call_locks (by decide) (by decide) (by decide) hrun (.xTasksWaitingToReceive 0)).1 .receiver ⟨rfl, rfl⟩
  exact ⟨_, hrun, rfl, hcurrent.symm, hone⟩

end WindowFilter.Queues
