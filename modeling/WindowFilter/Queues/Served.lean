import WindowFilter.Queues.Coherent

/- No wake-up is lost. A task that waits in an event list is woken by the send or the
   receive that makes its call possible, or is owed a wake-up in the lock count of the
   queue. `Served` keeps the account: as long as a task waits in the list, the tasks
   woken before it that have not looked at the queue yet, and the wake-ups owed, are as
   many as the calls that could go on. An interrupt that calls `xQueueSend` owes nothing,
   and must not come between a call's look at the queue and its entry into the list
   (`GapFree`).

   * `no_lost_wakeup`: while the queue is not locked nobody is owed anything.
   * `idle_serves_all`: when the idle task runs, no task waits for what is there. -/
namespace WindowFilter.Queues
open Steps
open Kernel (Queue_t queueUNLOCKED Leaving)
open Scheduler (Priority Good Task)

variable {τ κ α : Type} {uxPriority : τ → Priority} {spare : κ → Nat}

/-! ## The account -/

/-- How many calls that wait in the list could go on: there is an item for each receive, a
place for each send. -/
def availableIn {n : Nat} (queue : Queue_t α Empty n) : Waiting κ → Nat
  | .xTasksWaitingToSend _ => n - queue.uxMessagesWaiting
  | .xTasksWaitingToReceive _ => queue.uxMessagesWaiting

def State.available (s : State τ κ α uxPriority spare) (l : Waiting κ) : Nat := availableIn (s.queues l.xQueue) l

/-- The call is in the list `l`, or has been, and looks at the queue next. -/
def Waits (l : Waiting κ) : Option (Call κ α) → Prop
  | none => False
  | some c => c.request.waitsIn = l ∧ c.pc.waiting = true

/-- The task is to look at the queue, and is in the list no more, or not yet. -/
def Woken (call : τ → Option (Call κ α)) (sched : Scheduler.State τ (Waiting κ) uxPriority) (l : Waiting κ) (t : τ) : Prop :=
  Waits l (call t) ∧ t ∉ sched.events.lists (.event l)

/-- If a task waits in `l`, the woken ones and `n` wake-ups to come are enough. -/
def Served (call : τ → Option (Call κ α)) (sched : Scheduler.State τ (Waiting κ) uxPriority) (l : Waiting κ)
    (available n : Nat) : Prop :=
  sched.events.lists (.event l) ≠ [] → ∃ ws : List τ, ws.Nodup ∧ (∀ t ∈ ws, Woken call sched l t) ∧
    (available ≤ ws.length + n ∨ (sched.events.lists (.event l)).length ≤ n)

/-- The wake-ups owed are enough by themselves, or as many as there are tasks. -/
def Owed (s : State τ κ α uxPriority spare) (l : Waiting κ) : Prop :=
  s.available l ≤ (s.lock l).toNat ∨ s.sched.uxCurrentNumberOfTasks ≤ (s.lock l).toNat

structure WakeInv (s : State τ κ α uxPriority spare) : Prop where
  served : ∀ l, Served s.call s.sched l (s.available l) (s.lock l).toNat
  owed : ∀ t c, s.call t = some c → c.pc = .place → Owed s c.request.waitsIn

section
variable {call call' : τ → Option (Call κ α)} {sched sched' : Scheduler.State τ (Waiting κ) uxPriority} {l : Waiting κ}
  {available available' n : Nat}

/-- Fewer tasks wait, and no woken one is lost, unless nothing is to be had. -/
theorem Served.shrink (h : Served call sched l available n)
    (hlists : ∀ t ∈ sched'.events.lists (.event l), t ∈ sched.events.lists (.event l)) (hle : available' ≤ available)
    (hwaits : available' ≠ 0 → ∀ t, Waits l (call t) → Waits l (call' t)) : Served call' sched' l available' n := by
  intro hne
  obtain ⟨u, hu⟩ := List.exists_mem_of_ne_nil _ hne
  obtain ⟨ws, hnodup, hwoken, henough⟩ := h (List.ne_nil_of_mem (hlists u hu))
  by_cases hzero : available' = 0
  · exact ⟨[], List.nodup_nil, nofun, .inl (by omega)⟩
  · refine ⟨ws, hnodup, ?_, henough.imp (le_trans hle) ?_⟩
    · intro t ht
      exact ⟨hwaits hzero t (hwoken t ht).1, fun hmem => (hwoken t ht).2 (hlists t hmem)⟩
    · intro hlength
      exact le_trans ((List.subperm_of_subset (sched'.events.once _) hlists).length_le) hlength

/-- One more is to be had, for one more wake-up. -/
theorem Served.more (h : Served call sched l available n) : Served call sched l (available + 1) (n + 1) := by
  intro hne
  obtain ⟨ws, hnodup, hwoken, henough⟩ := h hne
  exact ⟨ws, hnodup, hwoken, henough.imp (by omega) (by omega)⟩

/-- The first task is woken. -/
theorem Served.wakes (h : Served call sched l available (n + 1))
    (hlisted : ∀ t ∈ sched.events.lists (.event l), Waits l (call t))
    (hlists : sched'.events.lists (.event l) = (sched.events.lists (.event l)).tail) : Served call sched' l available n := by
  intro hne
  cases hl : sched.events.lists (.event l) with
  | nil =>
    rw [hlists, hl] at hne
    exact absurd rfl hne
  | cons t ts =>
    have hnodup := sched.events.once (.event l)
    rw [hl] at hnodup hlists
    obtain ⟨ws, hws, hwoken, henough⟩ := h (by rw [hl]; nofun)
    refine ⟨t :: ws, List.nodup_cons.mpr ⟨?_, hws⟩, ?_, ?_⟩
    · intro ht
      exact (hwoken t ht).2 (hl ▸ List.mem_cons_self)
    · intro u hu
      rcases List.mem_cons.mp hu with rfl | hu
      · refine ⟨hlisted _ (hl ▸ List.mem_cons_self), ?_⟩
        rw [hlists]
        exact (List.nodup_cons.mp hnodup).1
      · refine ⟨(hwoken u hu).1, ?_⟩
        rw [hlists]
        intro hmem
        exact (hwoken u hu).2 (hl ▸ List.mem_cons_of_mem t hmem)
    · rw [hl, List.length_cons] at henough
      rw [hlists, List.length_cons, List.tail_cons]
      exact henough.imp (by omega) (by omega)

/-- A call has taken what it waited for. -/
theorem Served.takes [DecidableEq τ] (h : Served call sched l available n) (t : τ) :
    Served (Function.update call t none) sched l (available - 1) n := by
  intro hne
  obtain ⟨ws, hnodup, hwoken, henough⟩ := h hne
  refine ⟨ws.erase t, hnodup.erase t, ?_, henough.imp ?_ id⟩
  · intro u hu
    obtain ⟨hut, hu⟩ := hnodup.mem_erase_iff.mp hu
    refine ⟨?_, (hwoken u hu).2⟩
    rw [Function.update_of_ne hut]
    exact (hwoken u hu).1
  · intro hle
    have := List.le_length_erase (a := t) (l := ws)
    omega

end

variable [DecidableEq τ] [DecidableEq κ] {idle : τ} {n : Nat} {s s' : State τ κ α uxPriority spare}

/-! ## Wake-ups -/

omit [DecidableEq τ] [DecidableEq κ] in
/-- Who is in an event list waits there. -/
theorem Matches.listed {call : τ → Option (Call κ α)} {sched : Scheduler.State τ (Waiting κ) uxPriority}
    (h : Matches idle n call sched) {l : Waiting κ} {t : τ} (ht : t ∈ sched.events.lists (.event l)) : Waits l (call t) := by
  have hcontainer := (sched.events.contained _ t).mp ht
  cases hc : call t with
  | none => exact absurd ((h.free hc).container.symm.trans hcontainer) nofun
  | some c =>
    obtain ⟨hwaiting, hlist⟩ := (h.fits hc).waits _ hcontainer
    exact ⟨(hlist l rfl).symm, hwaiting⟩

theorem lists_wakeWaiting (l k : Waiting κ) (sched : Scheduler.State τ (Waiting κ) uxPriority) :
    (wakeWaiting l sched).events.lists (.event k) =
      if k = l then (sched.events.lists (.event k)).tail else sched.events.lists (.event k) := by
  cases hl : sched.events.lists (.event l) with
  | nil =>
    simp only [wakeWaiting, hl]
    split
    · next hk => rw [hk, hl, List.tail_nil]
    · rfl
  | cons t ts =>
    have hs : Scheduler.step t sched (.wake l) = some (wakeWaiting l sched) := by
      simp only [wakeWaiting, Scheduler.step, hl]
    exact Scheduler.lists_wake (Scheduler.step_cases hs) (.inl rfl) k

/-- The loop of `prvUnlockQueue` makes up for the wake-ups owed. -/
theorem Served.unlock {call : τ → Option (Call κ α)} {sched : Scheduler.State τ (Waiting κ) uxPriority} {l : Waiting κ}
    {available m : Nat} (h : Served call sched l available m) (hagree : Matches idle n call sched)
    (hsuspended : 0 < sched.uxSchedulerSuspended) : Served call (wakeCounted l m sched) l available 0 := by
  induction m generalizing sched with
  | zero => exact h
  | succ m ih =>
    cases hl : sched.events.lists (.event l) with
    | nil =>
      simp only [wakeCounted, hl]
      exact fun hne => absurd hl hne
    | cons t ts =>
      have hs := unlock_step idle hsuspended hl
      simp only [wakeCounted, hl]
      apply ih
      · apply h.wakes (fun u hu => hagree.listed hu)
        rw [Scheduler.lists_wake (Scheduler.step_cases hs) (.inr rfl), if_pos rfl]
      · exact matches_interrupt (e := .unlock l) hagree trivial hs
      · rw [Scheduler.suspended_interrupt (e := .unlock l) trivial (Scheduler.step_cases hs)]
        exact hsuspended

theorem lists_wakeCounted {l k : Waiting κ} (hk : k ≠ l) (m : Nat) {sched : Scheduler.State τ (Waiting κ) uxPriority}
    (idle : τ) (hsuspended : 0 < sched.uxSchedulerSuspended) :
    (wakeCounted l m sched).events.lists (.event k) = sched.events.lists (.event k) := by
  have hstep : ∀ u v : Scheduler.State τ (Waiting κ) uxPriority,
      u.events.lists (.event k) = sched.events.lists (.event k) → Scheduler.step idle u (.unlock l) = some v →
      v.events.lists (.event k) = sched.events.lists (.event k) := by
    intro u v hu hs
    rw [Scheduler.lists_wake (Scheduler.step_cases hs) (.inr rfl), if_neg hk]
    exact hu
  exact wakeCounted_inv (I := fun u => u.events.lists (.event k) = sched.events.lists (.event k)) hstep m rfl hsuspended

omit [DecidableEq τ] [DecidableEq κ] in
/-- No more tasks wait in a list than there are. -/
theorem length_le {sched : Scheduler.State τ (Waiting κ) uxPriority} (h : Good idle sched) (l : Waiting κ) :
    (sched.events.lists (.event l)).length ≤ sched.uxCurrentNumberOfTasks := by
  have hle : ((sched.events.lists (.event l) : List τ) : Multiset τ) ≤ Scheduler.places sched := by
    rw [Multiset.le_iff_subset (Multiset.coe_nodup.mpr (sched.events.once _))]
    intro t ht
    rw [Scheduler.mem_places]
    rcases h.filed.waits t _ ((sched.events.contained _ t).mp (Multiset.mem_coe.mp ht)) with hdelayed | ⟨x, hx⟩
    · exact .inr (.inl hdelayed)
    · exact .inl (h.filed.placed t x hx).2.2.1
  rw [← h.filed.counted, ← Multiset.coe_card]
  exact Multiset.card_le_card hle

/-! ## The running task goes on -/

omit [DecidableEq κ] in
/-- A step of the running task that touches no queue: its call changes from `c` to `c'`. -/
theorem WakeInv.goesOn (hw : WakeInv s) {c c' : Option (Call κ α)} (hc : s.call s.sched.pxCurrentTCB = c)
    (hcall : s'.call = Function.update s.call s.sched.pxCurrentTCB c')
    (hqueues : ∀ l, s'.available l = s.available l ∧ (s'.lock l).toNat = (s.lock l).toNat)
    (hnumber : s'.sched.uxCurrentNumberOfTasks ≤ s.sched.uxCurrentNumberOfTasks)
    (hlists : ∀ l, ∀ t ∈ s'.sched.events.lists (.event l), t ∈ s.sched.events.lists (.event l))
    (hwaits : ∀ l, s.available l ≠ 0 → Waits l c → Waits l c')
    (howed : ∀ d, c' = some d → d.pc = .place → Owed s d.request.waitsIn) : WakeInv s' := by
  have hkeeps : ∀ l, Owed s l → Owed s' l := by
    intro l hl
    rw [Owed, (hqueues l).1, (hqueues l).2]
    exact hl.imp id (le_trans hnumber)
  refine ⟨?_, ?_⟩
  · intro l
    rw [(hqueues l).1, (hqueues l).2]
    apply (hw.served l).shrink (hlists l) (le_refl _)
    intro hne t ht
    rw [hcall, Function.update_apply]
    split
    · next htc =>
      subst htc
      exact hwaits l hne (hc ▸ ht)
    · exact ht
  · intro t d ht hd
    apply hkeeps
    rw [hcall, Function.update_apply] at ht
    split at ht
    · exact howed d ht hd
    · exact hw.owed t d ht hd

/-- A step of the scheduler that puts no task in an event list. -/
theorem lists_shrink {e : Scheduler.Event (Waiting κ)} {sched sched' : Scheduler.State τ (Waiting κ) uxPriority}
    (hcount : 0 < sched.uxCurrentNumberOfTasks) (hs : Scheduler.Step idle sched e sched') {l : Waiting κ}
    (he : ∀ x, e ≠ .place l x) :
    ∀ t ∈ sched'.events.lists (.event l), t ∈ sched.events.lists (.event l) := by
  intro t ht
  rw [sched'.events.contained] at ht
  rw [sched.events.contained]
  obtain ⟨l₀, hl₀, hsame⟩ | ⟨k, x, hplace, -, hk⟩ := Scheduler.container_step hcount hs ht
  · rw [hl₀, hsame l rfl]
  · cases hk
    exact absurd hplace (he x)

/-- Interrupts and kernel calls that are no queue's. -/
theorem wakeInv_scheduler (h : Coherent idle n s) (hw : WakeInv s) {e : Scheduler.Event (Waiting κ)}
    (he : ∀ l x, e ≠ .place l x) {sched' : Scheduler.State τ (Waiting κ) uxPriority}
    (hs : Scheduler.step idle s.sched e = some sched') : WakeInv { s with sched := sched' } := by
  have hs := Scheduler.step_cases hs
  have hcount := h.agree.good.filed.count_pos
  refine hw.goesOn rfl ?_ ?_ (Scheduler.numberOfTasks_step hcount hs) (fun l => lists_shrink hcount hs (he l))
    (fun _ _ => id) (fun d hd hpc => hw.owed _ d hd hpc)
  · exact (Function.update_eq_self _ _).symm
  · exact fun _ => ⟨rfl, rfl⟩

/-- The call takes a step of the scheduler. -/
theorem wakeInv_go (h : Coherent idle n s) (hw : WakeInv s) {e : Scheduler.Event (Waiting κ)} {c c' : Option (Call κ α)}
    (hgo : goOn idle e c' s = some s') (hc : s.call s.sched.pxCurrentTCB = c) (he : ∀ l x, e ≠ .place l x)
    (hwaits : ∀ l, Waits l c → Waits l c') (howed : ∀ d, c' = some d → d.pc ≠ .place) : WakeInv s' := by
  obtain ⟨sched', hs, rfl⟩ := Option.map_eq_some_iff.mp hgo
  have hs := Scheduler.step_cases hs
  have hcount := h.agree.good.filed.count_pos
  exact hw.goesOn hc rfl (fun _ => ⟨rfl, rfl⟩) (Scheduler.numberOfTasks_step hcount hs)
    (fun l => lists_shrink hcount hs (he l)) (fun l _ => hwaits l) (fun d hd hpc => absurd hpc (howed d hd))

omit [DecidableEq κ] in
theorem wakeInv_set (hw : WakeInv s) {c c' : Option (Call κ α)} (hc : s.call s.sched.pxCurrentTCB = c)
    (hwaits : ∀ l, s.available l ≠ 0 → Waits l c → Waits l c')
    (howed : ∀ d, c' = some d → d.pc = .place → Owed s d.request.waitsIn) : WakeInv (setCall c' s) :=
  hw.goesOn hc rfl (fun _ => ⟨rfl, rfl⟩) (le_refl _) (fun _ _ => id) hwaits howed

/-- Into the event list: what has come since the look at the queue is owed. -/
theorem wakeInv_place (h : Coherent idle n s) (h' : Coherent idle n s') (hw : WakeInv s) {c : Call κ α}
    (hc : s.call s.sched.pxCurrentTCB = some c) (hpc : c.pc = .place)
    (hgo : goOn idle (.place c.request.waitsIn c.xTicksToWait) (some { c with pc := .delay }) s = some s') : WakeInv s' := by
  obtain ⟨sched', hs, rfl⟩ := Option.map_eq_some_iff.mp hgo
  have hs := Scheduler.step_cases hs
  have hcount := h.agree.good.filed.count_pos
  have hnumber := Scheduler.numberOfTasks_step hcount hs
  have howed := hw.owed _ c hc hpc
  have hsameCall : ∀ {l : Waiting κ}, l ≠ c.request.waitsIn → ∀ t, Waits l (s.call t) →
      Waits l (Function.update s.call s.sched.pxCurrentTCB (some { c with pc := Pc.delay }) t) := by
    intro l hl t ht
    rw [Function.update_apply]
    split
    · next htc =>
      rw [htc, hc] at ht
      exact absurd ht.1.symm hl
    · exact ht
  refine ⟨?_, ?_⟩
  · intro l
    by_cases hl : l = c.request.waitsIn
    · subst hl
      intro _
      refine ⟨[], List.nodup_nil, nofun, howed.imp ?_ ?_⟩
      · exact fun hle => le_trans hle (Nat.le_add_left _ _)
      · exact fun hle => le_trans (length_le h'.agree.good _) (le_trans hnumber hle)
    · apply (hw.served l).shrink _ (le_refl _) (fun _ => hsameCall hl)
      apply lists_shrink hcount hs
      intro x hplace
      cases hplace
      exact hl rfl
  · intro t d ht hd
    have ht : Function.update s.call s.sched.pxCurrentTCB (some { c with pc := Pc.delay }) t = some d := ht
    rw [Function.update_apply] at ht
    split at ht
    · cases ht
      cases hd
    · exact (hw.owed t d ht hd).imp id (le_trans hnumber)

/-! ## Items in and out -/

/-- An item goes into a queue or out of it: one call more can go on in `up`, one less in
`down`. -/
structure Moved (s s' : State τ κ α uxPriority spare) (up down : Waiting κ) : Prop where
  sched : s'.sched = s.sched
  call : s'.call = s.call
  lock : ∀ l, s'.lock l = s.lock l
  more : s'.available up = s.available up + 1
  less : s'.available down ≤ s.available down - 1
  others : ∀ l, l ≠ up → s'.available l ≤ s.available l

omit [DecidableEq τ] in
theorem available_update {l : Waiting κ} {q : κ} {queue : Queue_t α Empty (spare q + 1)} :
    State.available { s with queues := Function.update s.queues q queue } l =
      if l.xQueue = q then availableIn queue l else s.available l := by
  show availableIn (Function.update s.queues q queue l.xQueue) l = _
  split
  · next hq =>
    subst hq
    rw [Function.update_self]
  · next hq =>
    rw [Function.update_of_ne hq]
    rfl

omit [DecidableEq τ] in
/-- Locks are no items. -/
theorem available_locked {q : κ} {queue : Queue_t α Empty (spare q + 1)}
    (hsame : queue.uxMessagesWaiting = (s.queues q).uxMessagesWaiting) (l : Waiting κ) :
    State.available { s with queues := Function.update s.queues q queue } l = s.available l := by
  rw [available_update]
  split
  · next hq =>
    cases l with
    | xTasksWaitingToSend r =>
      cases hq
      exact congrArg (spare r + 1 - ·) hsame
    | xTasksWaitingToReceive r =>
      cases hq
      exact hsame
  · rfl

omit [DecidableEq τ] in
theorem moved_enqueue (q : κ) (x : α) (h : (s.queues q).uxMessagesWaiting < spare q + 1) :
    Moved s (enqueue q x s h) (.xTasksWaitingToReceive q) (.xTasksWaitingToSend q) := by
  refine ⟨rfl, rfl, lock_enqueue q x h, ?_, ?_, ?_⟩
  · exact (available_update (s := s)).trans (if_pos rfl)
  · refine le_of_eq (((available_update (s := s)).trans (if_pos rfl)).trans ?_)
    show spare q + 1 - ((s.queues q).uxMessagesWaiting + 1) = spare q + 1 - (s.queues q).uxMessagesWaiting - 1
    omega
  · intro l hl
    refine le_trans (le_of_eq (available_update (s := s))) ?_
    split
    · next hq =>
      cases l with
      | xTasksWaitingToReceive r => exact absurd (congrArg Waiting.xTasksWaitingToReceive hq) hl
      | xTasksWaitingToSend r =>
        cases hq
        show spare r + 1 - ((s.queues r).uxMessagesWaiting + 1) ≤ spare r + 1 - (s.queues r).uxMessagesWaiting
        omega
    · exact le_refl _

omit [DecidableEq τ] in
theorem moved_dequeue (q : κ) (h : 0 < (s.queues q).uxMessagesWaiting) :
    Moved s (dequeue q s h) (.xTasksWaitingToSend q) (.xTasksWaitingToReceive q) := by
  have hle := (s.queues q).waiting_le
  refine ⟨rfl, rfl, lock_dequeue q h, ?_, ?_, ?_⟩
  · refine ((available_update (s := s)).trans (if_pos rfl)).trans ?_
    show spare q + 1 - ((s.queues q).uxMessagesWaiting - 1) = spare q + 1 - (s.queues q).uxMessagesWaiting + 1
    omega
  · exact le_of_eq ((available_update (s := s)).trans (if_pos rfl))
  · intro l hl
    refine le_trans (le_of_eq (available_update (s := s))) ?_
    split
    · next hq =>
      cases l with
      | xTasksWaitingToSend r => exact absurd (congrArg Waiting.xTasksWaitingToSend hq) hl
      | xTasksWaitingToReceive r =>
        cases hq
        exact Nat.sub_le _ 1
    · exact le_refl _

omit [DecidableEq τ] [DecidableEq κ] in
/-- A task about to enter an event list is the running one. -/
theorem Coherent.places (h : Coherent idle n s) {t : τ} {c : Call κ α} (ht : s.call t = some c) (hpc : c.pc = .place) :
    t = s.sched.pxCurrentTCB :=
  ((h.agree.fits ht).inside (by rw [hpc]; rfl)).1

omit [DecidableEq τ] [DecidableEq κ] in
/-- It has locked the queue. -/
theorem Coherent.places_locked (h : Coherent idle n s) (hn : n ≤ 127) {t : τ} {c : Call κ α} (ht : s.call t = some c)
    (hpc : c.pc = .place) : s.lock c.request.waitsIn ≠ queueUNLOCKED := by
  have hholds : Holds c.request.waitsIn (s.call s.sched.pxCurrentTCB) := by
    rw [← h.places ht hpc, ht]
    refine ⟨(Request.waitsIn_xQueue _).symm, ?_⟩
    rw [hpc]
    rfl
  have := (h.locked hn _ hholds).1
  rw [queueUNLOCKED]
  omega

theorem numberOfTasks_wake (hcount : 0 < s.sched.uxCurrentNumberOfTasks) (idle : τ) (l : Waiting κ) :
    (wakeWaiting l s.sched).uxCurrentNumberOfTasks ≤ s.sched.uxCurrentNumberOfTasks := by
  rcases wakeWaiting_step idle l s.sched with hsame | hs
  · rw [hsame]
  · exact Scheduler.numberOfTasks_step hcount (Scheduler.step_cases hs)

omit [DecidableEq τ] [DecidableEq κ] in
theorem wakeInv_returns (hw : WakeInv s) (r : Request κ α) (x : Result α) : WakeInv (returns r x s) :=
  ⟨hw.served, hw.owed⟩

/-- A call puts its item into the queue, or takes one out, and wakes who can go on by it. -/
theorem wakeInv_done (h : Coherent idle n s) (hw : WakeInv s) {up down : Waiting κ} (hm : Moved s s' up down)
    {c : Call κ α} (hc : s.call s.sched.pxCurrentTCB = some c) (hdown : c.request.waitsIn = down) (x : Result α) :
    WakeInv (finish c x (wake up s')) := by
  apply wakeInv_returns
  have hne : up ≠ down := by
    intro hsame
    have hmore := hm.more
    have hless := hm.less
    rw [← hsame] at hless
    omega
  have hother : ∀ {l}, l ≠ down → ∀ t, Waits l (s.call t) →
      Waits l (Function.update s.call s.sched.pxCurrentTCB none t) := by
    intro l hl t ht
    rw [Function.update_apply]
    split
    · next htc =>
      rw [htc, hc] at ht
      exact absurd (ht.1.symm.trans hdown) hl
    · exact ht
  rw [setCall_wake]
  refine ⟨?_, ?_⟩
  · intro l
    show Served (Function.update s'.call s'.sched.pxCurrentTCB none) (wakeWaiting up s'.sched) l (s'.available l)
      (s'.lock l).toNat
    rw [hm.sched, hm.call, hm.lock]
    have hlists := lists_wakeWaiting up l s.sched
    by_cases hup : l = up
    · subst hup
      rw [if_pos rfl] at hlists
      have hmore := (hw.served l).more.shrink (fun _ => id) (le_refl _) (fun _ => hother hne)
      rw [hm.more]
      exact hmore.wakes (fun t ht => hother hne t (h.agree.listed ht)) hlists
    · rw [if_neg hup] at hlists
      have hsame : ∀ t ∈ (wakeWaiting up s.sched).events.lists (.event l), t ∈ s.sched.events.lists (.event l) := by
        intro t ht
        rwa [hlists] at ht
      by_cases hl : l = down
      · subst hl
        exact ((hw.served l).takes s.sched.pxCurrentTCB).shrink hsame hm.less (fun _ _ => id)
      · exact (hw.served l).shrink hsame (hm.others l hup) (fun _ => hother hl)
  · intro t d ht hd
    have ht : Function.update s'.call s'.sched.pxCurrentTCB none t = some d := ht
    rw [hm.sched, hm.call, Function.update_apply] at ht
    split at ht
    · cases ht
    · next htc => exact absurd (h.places ht hd) htc

/-- An interrupt wakes the first task, when none is about to wait. -/
theorem wakeInv_wake (h : Coherent idle n s) (hw : WakeInv s) {up down : Waiting κ} (hm : Moved s s' up down)
    (hgap : ∀ t c, s.call t = some c → c.pc = .place → c.request.waitsIn ≠ up) : WakeInv (wake up s') := by
  have hcount := h.agree.good.filed.count_pos
  refine ⟨?_, ?_⟩
  · intro l
    show Served s'.call (wakeWaiting up s'.sched) l (s'.available l) (s'.lock l).toNat
    rw [hm.sched, hm.call, hm.lock]
    have hlists := lists_wakeWaiting up l s.sched
    by_cases hup : l = up
    · subst hup
      rw [if_pos rfl] at hlists
      rw [hm.more]
      exact (hw.served l).more.wakes (fun t ht => h.agree.listed ht) hlists
    · rw [if_neg hup] at hlists
      refine (hw.served l).shrink ?_ (hm.others l hup) (fun _ _ => id)
      intro t ht
      rwa [hlists] at ht
  · intro t d ht hd
    have ht : s'.call t = some d := ht
    rw [hm.call] at ht
    have hup := hgap t d ht hd
    show s'.available _ ≤ (s'.lock _).toNat ∨ (wakeWaiting up s'.sched).uxCurrentNumberOfTasks ≤ (s'.lock _).toNat
    rw [hm.sched, hm.lock]
    exact (hw.owed t d ht hd).imp (le_trans (hm.others _ hup)) (le_trans (numberOfTasks_wake hcount idle up))

omit [DecidableEq τ] in
/-- An interrupt finds the queue locked, and counts. -/
theorem wakeInv_count (h : Coherent idle n s) (hn : n ≤ 127) (hw : WakeInv s) {s₁ : State τ κ α uxPriority spare} {up down : Waiting κ}
    (hm : Moved s s₁ up down) (hlocked : s.lock up ≠ queueUNLOCKED) (hsched : s'.sched = s₁.sched)
    (hcall : s'.call = s₁.call) (havailable : ∀ l, s'.available l = s₁.available l)
    (hcounted : s'.lock up = prvIncrementQueueLock (s.lock up) s.sched.uxCurrentNumberOfTasks)
    (hlock : ∀ l, l ≠ up → s'.lock l = s.lock l) : WakeInv s' := by
  have hholds : Holds up (s.call s.sched.pxCurrentTCB) := by
    by_contra hnot
    exact hlocked (h.unlocked up hnot)
  have hbounds := h.locked hn up hholds
  rw [prvIncrementQueueLock_eq hbounds (le_trans h.agree.few hn)] at hcounted
  refine ⟨?_, ?_⟩
  · intro l
    rw [hsched, hcall, hm.sched, hm.call, havailable]
    by_cases hup : l = up
    · subst hup
      rw [hm.more, hcounted]
      split
      · rw [Int.toNat_add hbounds.1 Int.one_nonneg]
        exact (hw.served l).more
      · -- as many wake-ups as tasks are owed already
        intro _
        have := length_le h.agree.good l
        exact ⟨[], List.nodup_nil, nofun, .inr (by omega)⟩
    · rw [hlock l hup]
      exact (hw.served l).shrink (fun _ => id) (hm.others l hup) (fun _ _ => id)
  · intro t d ht hd
    rw [hcall, hm.call] at ht
    have howed := hw.owed t d ht hd
    rw [Owed, hsched, hm.sched, havailable]
    by_cases hup : d.request.waitsIn = up
    · rw [hup] at howed ⊢
      rw [hm.more, hcounted]
      split
      · rw [Int.toNat_add hbounds.1 Int.one_nonneg]
        exact howed.imp Nat.succ_le_succ (fun hle => le_trans hle (Nat.le_succ _))
      · exact .inr (by omega)
    · rw [hlock _ hup]
      exact howed.imp (le_trans (hm.others _ hup)) id

omit [DecidableEq τ] in
theorem lock_counted {q : κ} {queue : Queue_t α Empty (spare q + 1)} {l k : Waiting κ} (hk : k ≠ l)
    (hother : ∀ k : Waiting κ, k.xQueue = q → k ≠ l → lockOf queue k = s.lock k) :
    State.lock { s with queues := Function.update s.queues q queue } k = s.lock k := by
  rw [lock_update]
  split
  · next hq => exact hother k hq hk
  · rfl

omit [DecidableEq τ] [DecidableEq κ] in
theorem Coherent.no_gap (h : Coherent idle n s) (hn : n ≤ 127) {l : Waiting κ} (hfree : s.lock l = queueUNLOCKED) :
    ∀ t c, s.call t = some c → c.pc = .place → c.request.waitsIn ≠ l := by
  intro t c ht hpc hl
  exact h.places_locked hn ht hpc (hl ▸ hfree)

theorem wakeInv_sendFromISR (h : Coherent idle n s) (hn : n ≤ 127) (hw : WakeInv s) (q : κ) (x : α) :
    WakeInv (xQueueGenericSendFromISR q x s).1 := by
  rw [xQueueGenericSendFromISR]
  split
  · next hroom =>
    have hm := moved_enqueue q x hroom
    show WakeInv (ite _ _ _ : State τ κ α uxPriority spare × Result α).1
    split
    · next hfree => exact wakeInv_wake h hw hm (h.no_gap hn hfree)
    · next hlocked =>
      refine wakeInv_count h hn hw hm hlocked rfl rfl ?_ ?_ ?_
      · exact available_locked (s := enqueue q x s hroom) rfl
      · exact (lock_update (s := enqueue q x s hroom)).trans (if_pos rfl)
      · intro l hl
        rw [← hm.lock]
        refine lock_counted (s := enqueue q x s hroom) hl ?_
        intro k hkq hne
        rw [lockOf_setTx hkq, if_neg hne]
  · exact hw

theorem wakeInv_receiveFromISR (h : Coherent idle n s) (hn : n ≤ 127) (hw : WakeInv s) (q : κ) :
    WakeInv (xQueueReceiveFromISR q s).1 := by
  rw [xQueueReceiveFromISR]
  split
  · next hitem =>
    have hm := moved_dequeue q hitem
    show WakeInv (ite _ _ _ : State τ κ α uxPriority spare × Result α).1
    split
    · next hfree => exact wakeInv_wake h hw hm (h.no_gap hn hfree)
    · next hlocked =>
      refine wakeInv_count h hn hw hm hlocked rfl rfl ?_ ?_ ?_
      · exact available_locked (s := dequeue q s hitem) rfl
      · exact (lock_update (s := dequeue q s hitem)).trans (if_pos rfl)
      · intro l hl
        rw [← hm.lock]
        refine lock_counted (s := dequeue q s hitem) hl ?_
        intro k hkq hne
        rw [lockOf_setRx hkq, if_neg hne]
  · exact hw

/-! ## The critical sections of a call -/

section
variable {c : Call κ α}

omit [DecidableEq κ] in
/-- The queue was full, or empty: nothing is to be had. -/
theorem wakeInv_refuse (hw : WakeInv s) (hc : s.call s.sched.pxCurrentTCB = some c)
    (hnothing : s.available c.request.waitsIn = 0) : WakeInv (refuse c s) := by
  have hwaits : ∀ {c' : Option (Call κ α)} (l : Waiting κ), s.available l ≠ 0 → Waits l (some c) → Waits l c' := by
    intro c' l hsome hl
    exact absurd (hl.1 ▸ hnothing) hsome
  rw [refuse]
  split
  · apply wakeInv_returns
    apply wakeInv_set hw hc hwaits
    intro d hd
    cases hd
  · apply wakeInv_set hw hc hwaits
    intro d hd hpc
    cases hd
    cases hpc

theorem wakeInv_check (h : Coherent idle n s) (hw : WakeInv s) (hc : s.call s.sched.pxCurrentTCB = some c) :
    WakeInv (check c s) := by
  rw [check]
  split
  · next q x hrequest =>
    split
    · next hroom => exact wakeInv_done h hw (moved_enqueue q x hroom) hc (by rw [hrequest]; rfl) _
    · next hfull =>
      apply wakeInv_refuse hw hc
      rw [hrequest]
      exact Nat.sub_eq_zero_of_le (Nat.le_of_not_lt hfull)
  · next q hrequest =>
    split
    · next hitem => exact wakeInv_done h hw (moved_dequeue q hitem) hc (by rw [hrequest]; rfl) _
    · next hempty =>
      apply wakeInv_refuse hw hc
      rw [hrequest]
      exact Nat.eq_zero_of_not_pos hempty

omit [DecidableEq τ] [DecidableEq κ] in
theorem available_of_mustWait {r : Request κ α} (h : mustWait s r = true) : s.available r.waitsIn = 0 := by
  cases r with
  | send q x => exact Nat.sub_eq_zero_of_le (le_of_eq (beq_iff_eq.mp h).symm)
  | receive q => exact beq_iff_eq.mp h

/-- A queue that is locked owes nobody anything yet. -/
theorem wakeInv_lock (h : Coherent idle n s) (hw : WakeInv s) (hc : s.call s.sched.pxCurrentTCB = some c)
    (hpc : c.pc = .lock) :
    WakeInv (setCall (some { c with pc := .checkTimeOut }) (prvLockQueue c.request.xQueue s)) := by
  have hfree : ∀ l : Waiting κ, s.lock l = queueUNLOCKED := by
    intro l
    apply h.unlocked l
    rw [hc]
    exact holds_iff_false (by rw [hpc]; rfl)
  have hlock := lock_prvLockQueue c.request.xQueue hfree
  apply hw.goesOn hc rfl
  · intro l
    have hsame : (s.queues c.request.xQueue).prvLockQueue.uxMessagesWaiting =
        (s.queues c.request.xQueue).uxMessagesWaiting := rfl
    refine ⟨available_locked hsame l, ?_⟩
    show ((prvLockQueue c.request.xQueue s).lock l).toNat = _
    rw [hlock, hfree]
    split
    · rfl
    · rfl
  · exact le_refl _
  · exact fun _ _ => id
  · intro l _ hwaits
    have hwaiting := hwaits.2
    rw [hpc] at hwaiting
    cases hwaiting
  · intro d hd hplace
    cases hd
    cases hplace

/-- Either half of `prvUnlockQueue`: what was owed is given. -/
theorem wakeInv_unlock (h : Coherent idle n s) (hw : WakeInv s) (hc : s.call s.sched.pxCurrentTCB = some c) {a : Leaving}
    {pc : Pc} (hpc : (c.pc = .unlockTx a ∧ pc = .unlockRx a) ∨ (c.pc = .unlockRx a ∧ pc = .resume a)) {l : Waiting κ}
    {queue : Queue_t α Empty (spare c.request.xQueue + 1)} (hl : l.xQueue = c.request.xQueue)
    (hqueue : ∀ k : Waiting κ, k.xQueue = c.request.xQueue → lockOf queue k = if k = l then queueUNLOCKED else s.lock k)
    (hcount : queue.uxMessagesWaiting = (s.queues c.request.xQueue).uxMessagesWaiting) :
    WakeInv (setCall (some { c with pc := pc })
      { s with sched := wakeCounted l (s.lock l).toNat s.sched,
               queues := Function.update s.queues c.request.xQueue queue }) := by
  obtain ⟨hin, hwaiting, hplace⟩ : c.pc.inSection = true ∧ c.pc.waiting = pc.waiting ∧ pc ≠ .place := by
    rcases hpc with ⟨hc, rfl⟩ | ⟨hc, rfl⟩
    · rw [hc]
      cases a with
      | block | retry | timedOut => exact ⟨rfl, rfl, nofun⟩
    · rw [hc]
      cases a with
      | block | retry | timedOut => exact ⟨rfl, rfl, nofun⟩
  obtain ⟨-, hone⟩ := (h.agree.fits hc).inside hin
  have hsuspended : 0 < s.sched.uxSchedulerSuspended := by
    rw [hone]
    exact Nat.one_pos
  have hagree := matches_unlock h.agree l (s.lock l).toNat hsuspended
  have hcurrent : s.sched.pxCurrentTCB = (wakeCounted l (s.lock l).toNat s.sched).pxCurrentTCB :=
    ((hagree.fits hc).inside hin).1
  have hsame : ∀ k : Waiting κ, State.available { s with queues := Function.update s.queues c.request.xQueue queue } k =
      s.available k := available_locked hcount
  have hwaits : ∀ k t, Waits k (s.call t) →
      Waits k (Function.update s.call s.sched.pxCurrentTCB (some { c with pc := pc }) t) := by
    intro k t ht
    rw [Function.update_apply]
    split
    · next htc =>
      rw [htc, hc] at ht
      exact ⟨ht.1, hwaiting ▸ ht.2⟩
    · exact ht
  refine ⟨?_, ?_⟩
  · intro k
    show Served (Function.update s.call (wakeCounted l _ s.sched).pxCurrentTCB _) (wakeCounted l _ s.sched) k
      (State.available { s with queues := Function.update s.queues c.request.xQueue queue } k)
      (State.lock { s with queues := Function.update s.queues c.request.xQueue queue } k).toNat
    rw [← hcurrent, hsame, lock_update]
    by_cases hkl : k = l
    · subst hkl
      rw [if_pos hl, hqueue k hl, if_pos rfl]
      exact ((hw.served k).unlock h.agree hsuspended).shrink (fun _ => id) (le_refl _) (fun _ => hwaits k)
    · have hlock : (if k.xQueue = c.request.xQueue then lockOf queue k else s.lock k) = s.lock k := by
        split
        · next hq => rw [hqueue k hq, if_neg hkl]
        · rfl
      rw [hlock]
      refine (hw.served k).shrink ?_ (le_refl _) (fun _ => hwaits k)
      intro t ht
      rwa [lists_wakeCounted hkl _ idle hsuspended] at ht
  · intro t d ht hd
    have ht : Function.update s.call (wakeCounted l _ s.sched).pxCurrentTCB (some { c with pc := pc }) t = some d := ht
    rw [← hcurrent, Function.update_apply] at ht
    split at ht
    · cases ht
      exact absurd hd hplace
    · next htc => exact absurd (h.places ht hd) htc

theorem wakeInv_unlockTx (h : Coherent idle n s) (hw : WakeInv s) (hc : s.call s.sched.pxCurrentTCB = some c) {a : Leaving}
    (hpc : c.pc = .unlockTx a) :
    WakeInv (setCall (some { c with pc := .unlockRx a }) (unlockTx c.request.xQueue s)) := by
  refine wakeInv_unlock (l := .xTasksWaitingToReceive c.request.xQueue) h hw hc (.inl ⟨hpc, rfl⟩) rfl ?_ rfl
  exact fun k hk => lockOf_setTx hk

theorem wakeInv_unlockRx (h : Coherent idle n s) (hw : WakeInv s) (hc : s.call s.sched.pxCurrentTCB = some c) {a : Leaving}
    (hpc : c.pc = .unlockRx a) :
    WakeInv (setCall (some { c with pc := .resume a }) (unlockRx c.request.xQueue s)) := by
  refine wakeInv_unlock (l := .xTasksWaitingToSend c.request.xQueue) h hw hc (.inr ⟨hpc, rfl⟩) rfl ?_ rfl
  exact fun k hk => lockOf_setRx hk

theorem wakeInv_resume (h : Coherent idle n s) (hw : WakeInv s) (hc : s.call s.sched.pxCurrentTCB = some c) {a : Leaving}
    (hpc : c.pc = .resume a) (hs : criticalSection idle c s = some s') : WakeInv s' := by
  obtain ⟨r, xTicksToWait, xTimeOut, pc⟩ := c
  cases hpc
  cases a with
  | block =>
    apply wakeInv_go h hw hs hc nofun
    · intro l hl
      refine ⟨hl.1, ?_⟩
      show Pc.waiting (if _ then _ else _) = true
      split
      · rfl
      · rfl
    · intro d hd
      cases hd
      show (if _ then _ else _) ≠ Pc.place
      split
      · nofun
      · nofun
  | retry =>
    apply wakeInv_go h hw hs hc nofun
    · exact fun l hl => absurd hl.2 nofun
    · intro d hd
      cases hd
      nofun
  | timedOut =>
    cases r with
    | send q x =>
      obtain ⟨u, hu, rfl⟩ := Option.map_eq_some_iff.mp hs
      apply wakeInv_returns
      exact wakeInv_go h hw hu hc nofun (fun l hl => absurd hl.2 nofun) nofun
    | receive q =>
      apply wakeInv_go h hw hs hc nofun
      · exact fun l hl => absurd hl.2 nofun
      · intro d hd
        cases hd
        nofun

theorem wakeInv_criticalSection (h : Coherent idle n s) (hw : WakeInv s) (hc : s.call s.sched.pxCurrentTCB = some c)
    (hpend : s.sched.pendSV = false) (hs : criticalSection idle c s = some s') : WakeInv s' := by
  have h' := coherent_criticalSection h hc hpend hs
  obtain ⟨r, xTicksToWait, xTimeOut, pc⟩ := c
  have hto : ∀ {c' : Call κ α} {pc' : Pc}, c'.pc = pc' → pc' ≠ .place → ∀ d, some c' = some d → d.pc ≠ .place := by
    intro c' pc' hpc hne d hd
    cases hd
    rw [hpc]
    exact hne
  cases pc with
  | check =>
    cases hs
    exact wakeInv_check h hw hc
  | suspend => exact wakeInv_go h hw hs hc nofun (fun l hl => absurd hl.2 nofun) (hto rfl nofun)
  | lock =>
    cases hs
    exact wakeInv_lock h hw hc rfl
  | checkTimeOut =>
    obtain ⟨o, rfl, rfl⟩ := Option.map_eq_some_iff.mp hs
    apply wakeInv_set hw hc (fun l _ hl => absurd hl.2 nofun)
    intro d hd hpc
    cases hd
    dsimp only at hpc
    split at hpc
    · cases hpc
    · cases hpc
  | look =>
    cases hs
    apply wakeInv_set hw hc (fun l _ hl => absurd hl.2 nofun)
    intro d hd hpc
    cases hd
    cases hwait : mustWait s r with
    | true =>
      left
      rw [available_of_mustWait hwait]
      exact Nat.zero_le _
    | false =>
      simp only [hwait] at hpc
      cases hpc
  | place => exact wakeInv_place h h' hw hc rfl hs
  | delay => exact wakeInv_go h hw hs hc nofun (fun l hl => ⟨hl.1, rfl⟩) (hto rfl nofun)
  | unlockTx a =>
    cases hs
    exact wakeInv_unlockTx h hw hc rfl
  | unlockRx a =>
    cases hs
    exact wakeInv_unlockRx h hw hc rfl
  | resume a => exact wakeInv_resume h hw hc rfl hs
  | yield => exact wakeInv_go h hw hs hc nofun (fun l hl => ⟨hl.1, rfl⟩) (hto rfl nofun)
  | lookTimedOut =>
    cases hs
    split
    · apply wakeInv_returns
      exact wakeInv_set hw hc (fun l _ hl => absurd hl.2 nofun) nofun
    · apply wakeInv_set hw hc (fun l _ hl => absurd hl.2 nofun)
      intro d hd hpc
      cases hd
      cases hpc

end

/-! ## Every run -/

/-- An interrupt that calls `xQueueSend` does not come where the running task has found the
queue empty and is about to wait for it. -/
def GapFree (s : State τ κ α uxPriority spare) : Event κ α → Prop
  | .sendInISR q _ => ∀ c ∈ s.call s.sched.pxCurrentTCB, c.pc = .place → c.request.waitsIn ≠ .xTasksWaitingToReceive q
  | .scheduler _ | .sendFromISR _ _ | .receiveFromISR _ | .request _ _ | .go => True

instance (s : State τ κ α uxPriority spare) (e : Event κ α) : Decidable (GapFree s e) := by
  cases e <;> unfold GapFree <;> infer_instance

theorem wakeInv_step {e : Event κ α} (h : Coherent idle n s) (hn : n ≤ 127) (hw : WakeInv s) (hgap : GapFree s e)
    (hs : step idle s e = some s') : WakeInv s' := by
  cases e with
  | scheduler e =>
    simp only [step] at hs
    split at hs
    · next hguard =>
      obtain ⟨sched', hstep, rfl⟩ := Option.map_eq_some_iff.mp hs
      apply wakeInv_scheduler h hw _ hstep
      intro l x he
      subst he
      rcases hguard with he | he | ⟨hown, -⟩
      · cases he
      · cases he
      · exact hown
    · cases hs
  | sendFromISR q x =>
    cases hs
    exact wakeInv_returns (wakeInv_sendFromISR h hn hw q x) _ _
  | receiveFromISR q =>
    cases hs
    exact wakeInv_returns (wakeInv_receiveFromISR h hn hw q) _ _
  | sendInISR q x =>
    simp only [step] at hs
    split at hs
    · next hroom =>
      cases hs
      apply wakeInv_returns
      apply wakeInv_wake h hw (moved_enqueue q x hroom)
      intro t c ht hpc
      rw [h.places ht hpc] at ht
      exact hgap c ht hpc
    · cases hs
  | request r xTicksToWait =>
    simp only [step] at hs
    split at hs
    · next hmay =>
      cases hs
      apply wakeInv_set hw hmay.1 (fun l _ hl => hl.elim)
      intro d hd hpc
      cases hd
      cases hpc
    · cases hs
  | go =>
    simp only [step] at hs
    split at hs
    · cases hs
    · next hpend =>
      obtain ⟨c, hc, hsection⟩ := Option.bind_eq_some_iff.mp hs
      exact wakeInv_criticalSection h hw hc (Bool.eq_false_iff.mpr hpend) hsection

omit [DecidableEq τ] [DecidableEq κ] in
theorem wakeInv_start (junk : α) (t : τ) (ts : List τ) : WakeInv (start junk t ts : State τ κ α uxPriority spare) := by
  obtain ⟨u, hu, -⟩ := @Scheduler.start_eq τ (Waiting κ) uxPriority t ts
  refine ⟨?_, nofun⟩
  intro l hne
  refine absurd ?_ hne
  show (Scheduler.start t ts).events.lists (.event l) = []
  rw [hu]
  rfl

theorem wakeInv_exec {junk : α} {t : τ} {ts : List τ} (hnodup : (t :: ts).Nodup) (hidle : idle ∈ t :: ts)
    (hfew : (t :: ts).length ≤ 127) {es : List (Event κ α)} (h : exec (step idle) (start junk t ts) es = some s)
    (hgap : AllSteps (step idle) GapFree (start junk t ts : State τ κ α uxPriority spare) es) : Coherent idle (t :: ts).length s ∧ WakeInv s :=
  exec_inv_of (I := fun s => Coherent idle (t :: ts).length s ∧ WakeInv s)
    (fun _ _ _ h hgap hs => ⟨coherent_step h.1 hs, wakeInv_step h.1 hfew h.2 hgap hs⟩) h hgap
    ⟨coherent_start junk hnodup hidle, wakeInv_start junk t ts⟩

omit [DecidableEq τ] [DecidableEq κ] in
/-- Who has been woken from a queue is ready, or will be when the scheduler is resumed. -/
theorem Coherent.woken (h : Coherent idle n s) {l : Waiting κ} {u : τ} (hu : Woken s.call s.sched l u) :
    Scheduler.Woken s.sched u := by
  obtain ⟨hwaits, hout⟩ := hu
  cases hc : s.call u with
  | none =>
    rw [hc] at hwaits
    exact hwaits.elim
  | some c =>
    rw [hc] at hwaits
    have hfits := h.agree.fits hc
    refine hfits.standing.imp id ?_
    rintro ⟨-, hcontainer⟩
    obtain ⟨k, hk⟩ := Option.ne_none_iff_exists'.mp hcontainer
    cases k with
    | xPendingReadyList => exact hk
    | event k =>
      have hlist := (hfits.waits _ hk).2 k rfl
      rw [hwaits.1] at hlist
      exact absurd ((s.sched.events.contained _ u).mpr (hlist ▸ hk)) hout

/-- A call of `xQueueReceive` that finds nothing, up to the switch. -/
def receiveBlocks (xQueue : κ) (xTicksToWait : UInt32) : List (Event κ α) :=
  .request (.receive xQueue) xTicksToWait :: List.replicate 11 .go ++ [.scheduler .pendSV]

/-- **No wake-up is lost.** When a queue is not locked and a task waits in one of its event
lists, as many tasks as can go on are ready to look at the queue. -/
theorem no_lost_wakeup {junk : α} {t : τ} {ts : List τ} (hnodup : (t :: ts).Nodup) (hidle : idle ∈ t :: ts)
    (hfew : (t :: ts).length ≤ 127) {es : List (Event κ α)} (h : exec (step idle) (start junk t ts) es = some s)
    (hgap : AllSteps (step idle) GapFree (start junk t ts : State τ κ α uxPriority spare) es) {l : Waiting κ} (hfree : s.lock l = queueUNLOCKED)
    (hwaits : s.sched.events.lists (.event l) ≠ []) :
    ∃ ws : List τ, ws.Nodup ∧ s.available l ≤ ws.length ∧
      ∀ u ∈ ws, Woken s.call s.sched l u ∧ Scheduler.Woken s.sched u := by
  obtain ⟨hcoherent, hw⟩ := wakeInv_exec hnodup hidle hfew h hgap
  obtain ⟨ws, hws, hwoken, henough⟩ := hw.served l hwaits
  rw [hfree] at henough
  refine ⟨ws, hws, henough.resolve_right ?_, fun u hu => ⟨hwoken u hu, hcoherent.woken (hwoken u hu)⟩⟩
  exact Nat.not_le_of_gt (List.length_pos_of_ne_nil hwaits)

/-- Two tasks wait for `q`. While a third comes to wait, an interrupt sends one item to the
locked queue, and `vUART_ISR` one when the lock is off. -/
def sentWhileWaiting (q : κ) : List (Event κ Int) :=
  receiveBlocks q 100 ++ receiveBlocks q 100 ++ .request (.receive q) 100 :: List.replicate 5 .go ++ [.sendFromISR q 7] ++
    List.replicate 3 .go ++ [.sendInISR q 8]

/-- The display still waits, and two tasks have been woken for the two items. -/
theorem no_lost_wakeup_two :
    ∃ s : State Task (Fin 3) Int Task.uxPriority (fun _ => 1), ∃ ws : List Task,
      exec (step Task.idle) (start 0 .sensor [.receiver, .display, .idle]) (sentWhileWaiting 0) = some s ∧
      s.sched.events.lists (.event (.xTasksWaitingToReceive 0)) = [.display] ∧ 2 ≤ ws.length ∧
      ∀ u ∈ ws, Scheduler.Woken s.sched u := by
  have hrun : exec (step Task.idle)
      (start 0 .sensor [.receiver, .display, .idle] : State Task (Fin 3) Int Task.uxPriority (fun _ => 1))
      (sentWhileWaiting 0) = some _ := rfl
  obtain ⟨ws, -, hle, hwoken⟩ :=
    no_lost_wakeup (l := .xTasksWaitingToReceive 0) (by decide) (by decide) (by decide) hrun (by decide +kernel) rfl nofun
  exact ⟨_, ws, hrun, rfl, hle, fun u hu => (hwoken u hu).2⟩

/-- What `GapFree` excludes: the item comes between the look and the entry into the list, and
`vTaskUpdateN` sleeps beside it. -/
example : (exec (step Task.idle) (start 0 .updateN [.idle] : State Task (Fin 3) Int Task.uxPriority (fun _ => 1))
    (.request (.receive 0) 100 :: List.replicate 5 .go ++ [.sendInISR 0 2] ++ List.replicate 6 .go ++
      [.scheduler .pendSV])).map (fun s => (s.sched.pxCurrentTCB,
        s.sched.events.lists (.event (.xTasksWaitingToReceive 0)), (s.queues 0).uxMessagesWaiting)) =
    some (.idle, [.updateN], 1) := rfl

/-- **When the idle task runs, nobody waits for what is there.** -/
theorem idle_serves_all {junk : α} {t : τ} {ts : List τ} (hnodup : (t :: ts).Nodup) (hidle : idle ∈ t :: ts)
    (hfew : (t :: ts).length ≤ 127) (hlowest : ∀ u, u ≠ idle → uxPriority idle < uxPriority u) {es : List (Event κ α)}
    (h : exec (step idle) (start junk t ts) es = some s) (hgap : AllSteps (step idle) GapFree (start junk t ts : State τ κ α uxPriority spare) es)
    (hruns : s.sched.pxCurrentTCB = idle) (hcall : s.call idle = none) (hresumed : s.sched.uxSchedulerSuspended = 0)
    (hpend : s.sched.pendSV = false) (q : κ) :
    (s.sched.events.lists (.event (.xTasksWaitingToReceive q)) ≠ [] → (s.queues q).uxMessagesWaiting = 0) ∧
      (s.sched.events.lists (.event (.xTasksWaitingToSend q)) ≠ [] → (s.queues q).uxMessagesWaiting = spare q + 1) := by
  obtain ⟨hcoherent, hw⟩ := wakeInv_exec hnodup hidle hfew h hgap
  have hnothing : ∀ l : Waiting κ, s.sched.events.lists (.event l) ≠ [] → s.available l = 0 := by
    intro l hwaits
    obtain ⟨ws, -, hwoken, henough⟩ := hw.served l hwaits
    have hfree : s.lock l = queueUNLOCKED := by
      apply hcoherent.unlocked
      intro hholds
      rw [(hcoherent.agree.holds hholds).2] at hresumed
      cases hresumed
    rw [hfree] at henough
    have hle := henough.resolve_right (Nat.not_le_of_gt (List.length_pos_of_ne_nil hwaits))
    cases ws with
    | nil => exact Nat.le_zero.mp hle
    | cons u us =>
      -- a woken task would run instead of the idle task
      have hu := hwoken u List.mem_cons_self
      have hne : u ≠ idle := by
        intro heq
        have hwaiting := hu.1
        rw [heq, hcall] at hwaiting
        exact hwaiting
      rcases hcoherent.agree.good.prompt u (hcoherent.woken hu) (hruns ▸ hlowest u hne) with hswitch | ⟨hsuspended, -⟩
      · exact absurd (hpend.symm.trans hswitch) nofun
      · omega
  refine ⟨hnothing (.xTasksWaitingToReceive q), fun hwaits => ?_⟩
  have hfull : spare q + 1 - (s.queues q).uxMessagesWaiting = 0 := hnothing _ hwaits
  have hle := (s.queues q).waiting_le
  omega

/-- Two tasks wait for `q`. `vUART_ISR` sends an item, and the first task takes it and waits
again. -/
def servedOnce (q : κ) : List (Event κ Int) :=
  receiveBlocks q 100 ++ receiveBlocks q 100 ++ [.sendInISR q 7, .scheduler .pendSV, .go] ++ receiveBlocks q 100

theorem idle_serves_all_once :
    ∃ s : State Task (Fin 3) Int Task.uxPriority (fun _ => 1),
      exec (step Task.idle) (start 0 .display [.receiver, .idle]) (servedOnce 0) = some s ∧
      s.sched.events.lists (.event (.xTasksWaitingToReceive 0)) = [.receiver, .display] ∧
      s.returned = [(.send 0 7, .pdPASS none), (.receive 0, .pdPASS (some 7))] ∧ (s.queues 0).uxMessagesWaiting = 0 := by
  have hrun : exec (step Task.idle)
      (start 0 .display [.receiver, .idle] : State Task (Fin 3) Int Task.uxPriority (fun _ => 1)) (servedOnce 0) =
      some _ := rfl
  have hlowest : ∀ u, u ≠ Task.idle → Task.uxPriority .idle < Task.uxPriority u := by
    intro u hu
    cases u with
    | idle => exact absurd rfl hu
    | sensor | receiver | display | updateN | monitor => decide
  have hempty := (idle_serves_all (by decide) (by decide) (by decide) hlowest hrun (by decide +kernel) rfl rfl rfl rfl 0).1
  exact ⟨_, hrun, rfl, rfl, hempty nofun⟩

end WindowFilter.Queues
