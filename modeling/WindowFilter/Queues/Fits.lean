import WindowFilter.Scheduler.Frame
import WindowFilter.Queues.Model

/- Where a call stands and what the scheduler thinks of its task agree, whatever the
   interrupts and the other tasks do. `Fits` says it of one task: between
   `vTaskSuspendAll` and `xTaskResumeAll` it is the running one; in an event list it is
   in that of its queue, and past `vTaskPlaceOnEventList`; and it is ready, or blocked
   where somebody will wake it.

   * `matches_interrupt`, `matches_own`: interrupts and kernel calls that are no queue's.
   * `fits_suspend` to `fits_yield`: what a call itself does with the scheduler. -/
namespace WindowFilter.Queues
open Steps
open Kernel (Queue_t queueUNLOCKED Leaving)
open Scheduler (Priority Standing Interrupt Good)

variable {τ κ α : Type} {uxPriority : τ → Priority} {spare : κ → Nat}

/-! ## Program counters -/

/-- Between `vTaskSuspendAll` and `xTaskResumeAll`. -/
def Pc.inSection : Pc → Bool
  | .lock | .checkTimeOut | .look | .place | .delay | .unlockTx _ | .unlockRx _ | .resume _ => true
  | .check | .suspend | .yield | .lookTimedOut => false

/-- On the way to block: there is time left, and the call has noted when it began to wait. -/
def Pc.setOut : Pc → Bool
  | .suspend | .lock | .checkTimeOut => true
  | .check | .look | .place | .delay | .unlockTx _ | .unlockRx _ | .resume _ | .yield | .lookTimedOut => false

/-- In the event list, or woken since: the next look at the queue is that of `check`. -/
def Pc.waiting : Pc → Bool
  | .delay | .unlockTx .block | .unlockRx .block | .resume .block | .yield | .check => true
  | .suspend | .lock | .checkTimeOut | .look | .place | .lookTimedOut => false
  | .unlockTx .retry | .unlockRx .retry | .resume .retry => false
  | .unlockTx .timedOut | .unlockRx .timedOut | .resume .timedOut => false

/-- In the suspended section, and blocked. -/
def Pc.blocked : Pc → Bool
  | .unlockTx .block | .unlockRx .block | .resume .block => true
  | _ => false

/-- The call has locked the queue for the list. -/
def Pc.holds : Pc → Waiting κ → Bool
  | .checkTimeOut, _ | .look, _ | .place, _ | .delay, _ | .unlockTx _, _ => true
  | .unlockRx _, .xTasksWaitingToSend _ => true
  | _, _ => false

/-- Where the scheduler sees the task. -/
def Pc.seen (xTicksToWait : UInt32) : Pc → Scheduler.Pc
  | .delay => .placed xTicksToWait
  | .yield => .yielding
  | _ => .running

theorem Pc.inSection_of_holds {pc : Pc} {l : Waiting κ} (h : pc.holds l = true) : pc.inSection = true := by
  cases pc with
  | checkTimeOut | look | place | delay | unlockTx | unlockRx => rfl
  | check | suspend | lock | resume | yield | lookTimedOut => cases h

/-! ## One task -/

structure Fits (idle : τ) (s : Scheduler.State τ (Waiting κ) uxPriority) (t : τ) (c : Call κ α) : Prop where
  counter : s.pc t = c.pc.seen c.xTicksToWait
  inside : c.pc.inSection = true → t = s.pxCurrentTCB ∧ s.uxSchedulerSuspended = 1
  outside : t = s.pxCurrentTCB → c.pc.inSection = false → c.xTicksToWait ≠ 0 → s.uxSchedulerSuspended = 0
  timed : c.pc.setOut = true → c.xTicksToWait ≠ 0 ∧ c.xTimeOut ≠ none
  left : c.pc = .look ∨ c.pc = .place → c.xTicksToWait ≠ 0
  notIdle : c.xTicksToWait ≠ 0 → t ≠ idle
  waits : ∀ l, s.events.pxContainer t = some l → c.pc.waiting = true ∧ ∀ k, l = .event k → k = c.request.waitsIn
  placed : c.pc = .delay → s.events.pxContainer t ≠ none
  awake : t = s.pxCurrentTCB → 0 < s.uxSchedulerSuspended → c.pc.blocked = false → s.ready.Ready t
  standing : Standing s t

/-- A task that calls no queue waits for none. -/
structure Free (s : Scheduler.State τ (Waiting κ) uxPriority) (t : τ) : Prop where
  container : s.events.pxContainer t = none
  notPlaced : ∀ x, s.pc t ≠ .placed x

def Agrees (idle : τ) (s : Scheduler.State τ (Waiting κ) uxPriority) (t : τ) : Option (Call κ α) → Prop
  | none => Free s t
  | some c => Fits idle s t c

/-- The calls and the scheduler agree, and there are no more than `n` tasks. -/
structure Matches (idle : τ) (n : Nat) (call : τ → Option (Call κ α)) (s : Scheduler.State τ (Waiting κ) uxPriority) :
    Prop where
  good : Good idle s
  few : s.uxCurrentNumberOfTasks ≤ n
  agrees : ∀ t, Agrees idle s t (call t)

theorem Matches.free {idle : τ} {n : Nat} {call : τ → Option (Call κ α)} {s : Scheduler.State τ (Waiting κ) uxPriority}
    (h : Matches idle n call s) {t : τ} (ht : call t = none) : Free s t := by
  have hagrees := h.agrees t
  rwa [ht] at hagrees

theorem Matches.fits {idle : τ} {n : Nat} {call : τ → Option (Call κ α)} {s : Scheduler.State τ (Waiting κ) uxPriority}
    (h : Matches idle n call s) {t : τ} {c : Call κ α} (ht : call t = some c) : Fits idle s t c := by
  have hagrees := h.agrees t
  rwa [ht] at hagrees

variable [DecidableEq τ] [DecidableEq κ] {idle : τ} {n : Nat} {sched sched' : Scheduler.State τ (Waiting κ) uxPriority}
  {e : Scheduler.Event (Waiting κ)}

/-- **A step that is not the task's own leaves it where it is.** -/
theorem fits_step (hgood : Good idle sched) (hs : Scheduler.Step idle sched e sched') {t : τ} {c : Call κ α}
    (he : Interrupt e ∨ (e ≠ .pendSV ∧ t ≠ sched.pxCurrentTCB)) (h : Fits idle sched t c) : Fits idle sched' t c := by
  have hcount := hgood.filed.count_pos
  have hstanding := Scheduler.standing_step hcount hgood.filed.ready_nodup hs (he.imp id And.right) h.standing
  have hwaits : ∀ l, sched'.events.pxContainer t = some l →
      c.pc.waiting = true ∧ ∀ k, l = .event k → k = c.request.waitsIn := by
    intro l hl
    obtain ⟨l₀, hl₀, hsame⟩ | ⟨k, x, rfl, ht, -⟩ := Scheduler.container_step hcount hs hl
    · refine ⟨(h.waits l₀ hl₀).1, ?_⟩
      intro k hk
      exact (h.waits l₀ hl₀).2 k (hsame k hk)
    · exact absurd ht (he.resolve_left id).2
  by_cases ht : t = sched.pxCurrentTCB
  · have hinterrupt := he.resolve_right (fun h => h.2 ht)
    have hsuspended := Scheduler.suspended_interrupt hinterrupt hs
    -- the running task is switched out only where the scheduler is not suspended
    have hcurrent : 0 < sched.uxSchedulerSuspended → sched'.pxCurrentTCB = sched.pxCurrentTCB :=
      fun hpos => Scheduler.current_kept hcount hs (.inr hpos)
    refine ⟨?_, ?_, ?_, h.timed, h.left, h.notIdle, hwaits, ?_, ?_, hstanding⟩
    · rw [Scheduler.pc_interrupt hinterrupt hs]
      exact h.counter
    · intro hin
      obtain ⟨-, hone⟩ := h.inside hin
      exact ⟨ht.trans (hcurrent (by omega)).symm, hsuspended.trans hone⟩
    · intro _ hout hticks
      exact hsuspended.trans (h.outside ht hout hticks)
    · intro hpc
      have hin : c.pc.inSection = true := by rw [hpc]; rfl
      exact Scheduler.container_interrupt hinterrupt hs (by rw [(h.inside hin).2]; exact Nat.one_pos) (h.placed hpc)
    · intro _ hpos hpc
      exact Scheduler.ready_interrupt hinterrupt hs (h.awake ht (hsuspended ▸ hpos) hpc)
  · have hout : c.pc.inSection ≠ true := fun hin => ht (h.inside hin).1
    have hnot : ∀ hpos : 0 < sched'.uxSchedulerSuspended, t ≠ sched'.pxCurrentTCB := by
      intro hpos
      by_cases hpend : e = .pendSV
      · subst hpend
        rw [Scheduler.suspended_interrupt (e := .pendSV) trivial hs] at hpos
        rw [Scheduler.current_kept hcount hs (.inr hpos)]
        exact ht
      · rw [Scheduler.current_kept hcount hs (.inl hpend)]
        exact ht
    refine ⟨?_, fun hin => absurd hin hout, ?_, h.timed, h.left, h.notIdle, hwaits, ?_, ?_, hstanding⟩
    · rw [Scheduler.pc_of_ne hcount hs ht]
      exact h.counter
    · intro hcurrent _ _
      by_contra hzero
      exact hnot (Nat.pos_of_ne_zero hzero) hcurrent
    · intro hpc
      exact absurd (by rw [hpc]; rfl) hout
    · intro hcurrent hpos _
      exact absurd hcurrent (hnot hpos)

theorem free_step (hcount : 0 < sched.uxCurrentNumberOfTasks) (hs : Scheduler.Step idle sched e sched') {t : τ}
    (he : (∀ k x, e ≠ .place k x) ∨ t ≠ sched.pxCurrentTCB) (h : Free sched t) : Free sched' t := by
  refine ⟨?_, ?_⟩
  · cases hc : sched'.events.pxContainer t with
    | none => rfl
    | some l =>
      obtain ⟨l₀, hl₀, -⟩ | ⟨k, x, hplace, ht, -⟩ := Scheduler.container_step hcount hs hc
      · exact absurd (h.container.symm.trans hl₀) nofun
      · exact he.elim (fun hne => absurd hplace (hne k x)) (fun hne => absurd ht hne)
  · intro x hx
    obtain hx | ⟨k, hplace, ht⟩ := Scheduler.placed_step hcount hs hx
    · exact h.notPlaced x hx
    · exact he.elim (fun hne => absurd hplace (hne k x)) (fun hne => absurd ht hne)

theorem agrees_step (hgood : Good idle sched) (hs : Scheduler.Step idle sched e sched') {t : τ}
    (he : Interrupt e ∨ (e ≠ .pendSV ∧ t ≠ sched.pxCurrentTCB)) {c : Option (Call κ α)} (h : Agrees idle sched t c) :
    Agrees idle sched' t c := by
  cases c with
  | none =>
    refine free_step hgood.filed.count_pos hs (he.imp ?_ And.right) h
    intro hinterrupt k x hk
    subst hk
    exact hinterrupt
  | some c => exact fits_step hgood hs he h

theorem matches_interrupt {call : τ → Option (Call κ α)} (h : Matches idle n call sched) (he : Interrupt e)
    (hs : Scheduler.step idle sched e = some sched') : Matches idle n call sched' := by
  have hs := Scheduler.step_cases hs
  refine ⟨Scheduler.good_step h.good hs, le_trans (Scheduler.numberOfTasks_step h.good.filed.count_pos hs) h.few, ?_⟩
  intro t
  exact agrees_step h.good hs (.inl he) (h.agrees t)

/-! ## Waking -/

theorem wakeWaiting_step (idle : τ) (l : Waiting κ) (s : Scheduler.State τ (Waiting κ) uxPriority) :
    wakeWaiting l s = s ∨ Scheduler.step idle s (.wake l) = some (wakeWaiting l s) := by
  cases hl : s.events.lists (.event l) with
  | nil => exact .inl (by simp only [wakeWaiting, hl])
  | cons t ts => exact .inr (by simp only [wakeWaiting, Scheduler.step, hl])

theorem unlock_step (idle : τ) {l : Waiting κ} {t : τ} {ts : List τ} (hsuspended : 0 < sched.uxSchedulerSuspended)
    (hl : sched.events.lists (.event l) = t :: ts) :
    Scheduler.step idle sched (.unlock l) = some { (Scheduler.xTaskRemoveFromEventList t sched).1 with
      xYieldPending := (Scheduler.xTaskRemoveFromEventList t sched).1.xYieldPending ||
        (Scheduler.xTaskRemoveFromEventList t sched).2 } := by
  simp only [Scheduler.step, if_pos hsuspended, hl]

/-- What an unlocking step keeps, the loop of `prvUnlockQueue` keeps. -/
theorem wakeCounted_inv {I : Scheduler.State τ (Waiting κ) uxPriority → Prop} {l : Waiting κ}
    (hstep : ∀ s s', I s → Scheduler.step idle s (.unlock l) = some s' → I s') (n : Nat) (h : I sched)
    (hsuspended : 0 < sched.uxSchedulerSuspended) : I (wakeCounted l n sched) := by
  induction n generalizing sched with
  | zero => exact h
  | succ n ih =>
    cases hl : sched.events.lists (.event l) with
    | nil =>
      simp only [wakeCounted, hl]
      exact h
    | cons t ts =>
      have hs := unlock_step idle hsuspended hl
      simp only [wakeCounted, hl]
      apply ih (hstep _ _ h hs)
      rw [Scheduler.suspended_interrupt (e := .unlock l) trivial (Scheduler.step_cases hs)]
      exact hsuspended

theorem matches_wake {call : τ → Option (Call κ α)} (h : Matches idle n call sched) (l : Waiting κ) :
    Matches idle n call (wakeWaiting l sched) := by
  rcases wakeWaiting_step idle l sched with hsame | hs
  · rw [hsame]
    exact h
  · exact matches_interrupt (e := .wake l) h trivial hs

theorem matches_unlock {call : τ → Option (Call κ α)} (h : Matches idle n call sched) (l : Waiting κ) (k : Nat)
    (hsuspended : 0 < sched.uxSchedulerSuspended) : Matches idle n call (wakeCounted l k sched) :=
  wakeCounted_inv (I := Matches idle n call) (fun _ _ h hs => matches_interrupt (e := .unlock l) h trivial hs) k h hsuspended

/-! ## The running task -/

omit [DecidableEq κ] in
/-- The running task changes its call. -/
theorem matches_set {call : τ → Option (Call κ α)} (h : Matches idle n call sched) {c : Option (Call κ α)}
    (hc : Agrees idle sched sched.pxCurrentTCB c) : Matches idle n (Function.update call sched.pxCurrentTCB c) sched := by
  refine ⟨h.good, h.few, ?_⟩
  intro t
  rw [Function.update_apply]
  split
  · next ht => exact ht ▸ hc
  · exact h.agrees t

/-- The running task takes a step of the scheduler. -/
theorem matches_go {call : τ → Option (Call κ α)} (h : Matches idle n call sched)
    (hs : Scheduler.Step idle sched e sched') (he : e ≠ .pendSV) {c : Option (Call κ α)}
    (hc : Agrees idle sched' sched.pxCurrentTCB c) : Matches idle n (Function.update call sched.pxCurrentTCB c) sched' := by
  refine ⟨Scheduler.good_step h.good hs, le_trans (Scheduler.numberOfTasks_step h.good.filed.count_pos hs) h.few, ?_⟩
  intro t
  rw [Function.update_apply]
  split
  · next ht => exact ht ▸ hc
  · next ht => exact agrees_step h.good hs (.inr ⟨he, ht⟩) (h.agrees t)

/-- A kernel call that is no queue's. -/
theorem matches_own {call : τ → Option (Call κ α)} (h : Matches idle n call sched) (he : IsOwn e)
    (hnone : call sched.pxCurrentTCB = none) (hs : Scheduler.step idle sched e = some sched') :
    Matches idle n call sched' := by
  have hplace : ∀ k x, e ≠ .place k x := by
    intro k x hk
    subst hk
    exact he
  have hpend : e ≠ .pendSV := by
    intro hk
    subst hk
    exact he
  have hs := Scheduler.step_cases hs
  have hset := matches_go (c := none) h hs hpend (free_step h.good.filed.count_pos hs (.inl hplace) (h.free hnone))
  rwa [← hnone, Function.update_eq_self] at hset

/-! ## The steps of a call -/

section
variable {c : Call κ α}

omit [DecidableEq τ] [DecidableEq κ] in
/-- A task that goes on with its call, where it is not blocked, is ready. -/
theorem Fits.ready (h : Fits idle sched sched.pxCurrentTCB c) (hgood : Good idle sched) (hpend : sched.pendSV = false)
    (hyield : c.pc ≠ .yield) (hblocked : c.pc.blocked = false) : sched.ready.Ready sched.pxCurrentTCB := by
  by_cases hresumed : sched.uxSchedulerSuspended = 0
  · apply hgood.stands hresumed hpend
    rw [h.counter]
    cases hpc : c.pc with
    | yield => exact absurd hpc hyield
    | delay => nofun
    | check | suspend | lock | checkTimeOut | look | place | unlockTx | unlockRx | resume | lookTimedOut => nofun
  · exact h.awake rfl (Nat.pos_of_ne_zero hresumed) hblocked

omit [DecidableEq τ] [DecidableEq κ] in
/-- Who does not wait is in no event list. -/
theorem Fits.outOfLists {t : τ} (h : Fits idle sched t c) (hpc : c.pc.waiting = false) :
    sched.events.pxContainer t = none := by
  cases hl : sched.events.pxContainer t with
  | none => rfl
  | some l => exact absurd ((h.waits l hl).1.symm.trans hpc) nofun

omit [DecidableEq τ] [DecidableEq κ] in
/-- Who looks at the queue in `check` has been woken. -/
theorem Fits.woken (h : Fits idle sched sched.pxCurrentTCB c) (hgood : Good idle sched) (hpend : sched.pendSV = false)
    (hpc : c.pc = .check) : sched.events.pxContainer sched.pxCurrentTCB = none := by
  apply hgood.filed.free (h.ready hgood hpend (hpc ▸ nofun) (hpc ▸ rfl))
  intro x
  rw [h.counter, hpc]
  nofun

omit [DecidableEq τ] [DecidableEq κ] in
/-- The call returns. -/
theorem Fits.returns {t : τ} (h : Fits idle sched t c) (hcontainer : sched.events.pxContainer t = none)
    (hpc : c.pc ≠ .delay) : Free sched t := by
  refine ⟨hcontainer, ?_⟩
  intro x
  rw [h.counter]
  cases hc : c.pc with
  | delay => exact absurd hc hpc
  | check | suspend | lock | checkTimeOut | look | place | unlockTx | unlockRx | resume | yield | lookTimedOut => nofun

omit [DecidableEq τ] [DecidableEq κ] in
/-- The call goes on without the scheduler, where it waits for nothing. -/
theorem Fits.goesOn {t : τ} (h : Fits idle sched t c) {c' : Call κ α} (hcontainer : sched.events.pxContainer t = none)
    (hseen : c'.pc.seen c'.xTicksToWait = c.pc.seen c.xTicksToWait) (hin : c'.pc.inSection = c.pc.inSection)
    (hblocked : c'.pc.blocked = c.pc.blocked) (hticks : c'.xTicksToWait ≠ 0 → c.xTicksToWait ≠ 0)
    (htimed : c'.pc.setOut = true → c'.xTicksToWait ≠ 0 ∧ c'.xTimeOut ≠ none)
    (hleft : c'.pc = .look ∨ c'.pc = .place → c'.xTicksToWait ≠ 0) (hdelay : c'.pc ≠ .delay) : Fits idle sched t c' := by
  refine ⟨h.counter.trans hseen.symm, ?_, ?_, htimed, hleft, fun hne => h.notIdle (hticks hne), ?_,
    fun hpc => absurd hpc hdelay, ?_, h.standing⟩
  · rw [hin]
    exact h.inside
  · rw [hin]
    intro ht hout hne
    exact h.outside ht hout (hticks hne)
  · intro l hl
    exact absurd (hcontainer.symm.trans hl) nofun
  · rw [hblocked]
    exact h.awake

theorem fits_suspend (h : Fits idle sched sched.pxCurrentTCB c) (hgood : Good idle sched) (hpc : c.pc = .suspend)
    (hs : Scheduler.Step idle sched .suspend sched') : Fits idle sched' sched.pxCurrentTCB { c with pc := .lock } := by
  have htimed := h.timed (by rw [hpc]; rfl)
  have hresumed := h.outside rfl (by rw [hpc]; rfl) htimed.1
  have hfree := h.outOfLists (by rw [hpc]; rfl)
  cases hs with
  | suspend hat =>
    have hready := h.ready hgood hat.1 (hpc ▸ nofun) (hpc ▸ rfl)
    refine ⟨hat.2, ?_, nofun, fun _ => htimed, nofun, h.notIdle, ?_, nofun, fun _ _ _ => hready, .inl hready⟩
    · intro _
      exact ⟨rfl, congrArg (· + 1) hresumed⟩
    · intro l hl
      exact absurd (hfree.symm.trans hl) nofun

/-- Into the event list of the queue. -/
theorem fits_place (h : Fits idle sched sched.pxCurrentTCB c) (hpc : c.pc = .place)
    (hs : Scheduler.Step idle sched (.place c.request.waitsIn c.xTicksToWait) sched') :
    Fits idle sched' sched.pxCurrentTCB { c with pc := .delay } := by
  have hin := h.inside (by rw [hpc]; rfl)
  cases hs with
  | place l x hblock =>
    have hready := hblock.2.2.2.1
    refine ⟨Function.update_self _ _ _, fun _ => hin, nofun, nofun, nofun, h.notIdle, ?_, ?_, fun _ _ _ => hready, .inl hready⟩
    · intro l hl
      simp only [Scheduler.setPc, Scheduler.EventLists.insert_container, if_pos] at hl
      refine ⟨rfl, ?_⟩
      intro k hk
      rw [hk] at hl
      exact (Scheduler.EventList.event.inj (Option.some.inj hl)).symm
    · intro _
      simp only [Scheduler.setPc, Scheduler.EventLists.insert_container, if_pos]
      exact Option.some_ne_none _

/-- Blocked. -/
theorem fits_delay (h : Fits idle sched sched.pxCurrentTCB c) (hpc : c.pc = .delay)
    (hs : Scheduler.Step idle sched .delayPlaced sched') :
    Fits idle sched' sched.pxCurrentTCB { c with pc := .unlockTx .block } := by
  have hin := h.inside (by rw [hpc]; rfl)
  have hcontainer := h.placed hpc
  cases hs with
  | delayPlaced x hplaced hpend =>
    refine ⟨Function.update_self _ _ _, fun _ => hin, nofun, nofun, nofun, h.notIdle, ?_, nofun, fun _ _ => nofun, ?_⟩
    · intro l hl
      exact ⟨rfl, (h.waits l hl).2⟩
    · exact .inr ⟨(Scheduler.DelayedLists.owners_add _ _ _).mem_iff.mpr List.mem_cons_self, hcontainer⟩

/-- Out of the suspended section: the call waits, or is about to look at the queue again. -/
theorem fits_resume (h : Fits idle sched sched.pxCurrentTCB c) (hgood : Good idle sched) {a : Leaving} {pc : Pc}
    (hpc : c.pc = .resume a) (hcounter : sched'.pc sched.pxCurrentTCB = pc.seen c.xTicksToWait)
    (hfrom : sched'.events = (Scheduler.xTaskResumeAll sched).1.events ∧
      sched'.ready = (Scheduler.xTaskResumeAll sched).1.ready ∧ sched'.delayed = (Scheduler.xTaskResumeAll sched).1.delayed ∧
      sched'.uxSchedulerSuspended = (Scheduler.xTaskResumeAll sched).1.uxSchedulerSuspended)
    (hto : pc = .check ∨ pc = .yield ∨ pc = .lookTimedOut) (hwaiting : a = .block → pc.waiting = true) :
    Fits idle sched' sched.pxCurrentTCB { c with pc := pc } := by
  have hcount := hgood.filed.count_pos
  obtain ⟨hevents, hreadyLists, hdelayed, hsuspended⟩ := hfrom
  have hresumed : sched'.uxSchedulerSuspended = 0 := by
    rw [hsuspended, Scheduler.suspended_resume hcount, (h.inside (by rw [hpc]; rfl)).2]
  have hstanding : Standing sched' sched.pxCurrentTCB := by
    rw [Standing, hevents, hreadyLists, hdelayed]
    exact Scheduler.standing_resume hcount h.standing
  have hout : pc.inSection = false ∧ pc.setOut = false ∧ pc ≠ .look ∧ pc ≠ .place ∧ pc ≠ .delay := by
    rcases hto with rfl | rfl | rfl
    · exact ⟨rfl, rfl, nofun, nofun, nofun⟩
    · exact ⟨rfl, rfl, nofun, nofun, nofun⟩
    · exact ⟨rfl, rfl, nofun, nofun, nofun⟩
  refine ⟨hcounter, fun hin => absurd (hin.symm.trans hout.1) nofun, fun _ _ _ => hresumed,
    fun hset => absurd (hset.symm.trans hout.2.1) nofun, fun hlook => absurd hlook ?_, h.notIdle, ?_,
    fun hdelay => absurd hdelay hout.2.2.2.2, fun _ hpos => absurd hresumed (Nat.pos_iff_ne_zero.mp hpos), hstanding⟩
  · exact not_or.mpr ⟨hout.2.2.1, hout.2.2.2.1⟩
  · intro l hl
    rw [hevents] at hl
    rcases Scheduler.container_resume hcount sched.pxCurrentTCB with hnone | hkept
    · exact absurd (hnone.symm.trans hl) nofun
    · obtain ⟨hwaits, hk⟩ := h.waits l (hkept.symm.trans hl)
      rw [hpc] at hwaits
      refine ⟨hwaiting ?_, hk⟩
      cases a with
      | block => rfl
      | retry => cases hwaits
      | timedOut => cases hwaits

/-- Switched out, with a look at the queue to come. -/
theorem fits_yield (h : Fits idle sched sched.pxCurrentTCB c) (hpc : c.pc = .yield)
    (hs : Scheduler.Step idle sched .yield sched') : Fits idle sched' sched.pxCurrentTCB { c with pc := .check } := by
  cases hs with
  | yield hat =>
    refine ⟨Function.update_self _ _ _, nofun, ?_, nofun, nofun, h.notIdle, ?_, nofun, ?_, h.standing⟩
    · intro _ _ hticks
      exact h.outside rfl (by rw [hpc]; rfl) hticks
    · intro l hl
      exact ⟨rfl, (h.waits l hl).2⟩
    · intro _ hpos _
      exact h.awake rfl hpos (by rw [hpc]; rfl)

end

end WindowFilter.Queues
