import WindowFilter.Scheduler.Time

/- Deadlines on a clock that wraps. A task that calls `xTaskDelayUntil` in a loop wakes on
   multiples of its period after its first reading of the clock, however long its work has
   taken (`no_drift`). A task that checks again and again whether its time is up, as the
   loops of `queue.c` do, gives up at the first check at which it is (`timeout_exact`).
   Both hold across every wrap of the 32-bit tick count. -/
namespace WindowFilter.Scheduler
open Steps

/-! ## The functions -/

/-- `xTaskDelayUntil` up to its block: the new `*pxPreviousWakeTime`, and the ticks to block
for if it does. -/
def DelayedLists.xTaskDelayUntil {τ : Type} (d : DelayedLists τ) (pxPreviousWakeTime xTimeIncrement : UInt32) :
    UInt32 × Option UInt32 :=
  let xConstTickCount := d.xTickCount
  let xTimeToWake := pxPreviousWakeTime + xTimeIncrement
  let xShouldDelay :=
    if xConstTickCount < pxPreviousWakeTime then
      xTimeToWake < pxPreviousWakeTime && xTimeToWake > xConstTickCount
    else xTimeToWake < pxPreviousWakeTime || xTimeToWake > xConstTickCount
  (xTimeToWake, if xShouldDelay then some (xTimeToWake - xConstTickCount) else none)

structure TimeOut_t where
  xOverflowCount : UInt32
  xTimeOnEntering : UInt32
  deriving DecidableEq, Repr

/-- `vTaskInternalSetTimeOutState`, and `vTaskSetTimeOutState`. -/
def DelayedLists.vTaskInternalSetTimeOutState {τ : Type} (d : DelayedLists τ) : TimeOut_t :=
  ⟨d.xNumOfOverflows, d.xTickCount⟩

/-- `xTaskCheckForTimeOut`: whether the time is up, `*pxTimeOut` and `*pxTicksToWait`. -/
def DelayedLists.xTaskCheckForTimeOut {τ : Type} (d : DelayedLists τ) (pxTimeOut : TimeOut_t) (pxTicksToWait : UInt32) :
    Bool × TimeOut_t × UInt32 :=
  let xElapsedTime := d.xTickCount - pxTimeOut.xTimeOnEntering
  if d.xNumOfOverflows ≠ pxTimeOut.xOverflowCount ∧ d.xTickCount ≥ pxTimeOut.xTimeOnEntering then (true, pxTimeOut, 0)
  else if xElapsedTime < pxTicksToWait then
    (false, d.vTaskInternalSetTimeOutState, pxTicksToWait - xElapsedTime)
  else (true, pxTimeOut, 0)

/-! ## One call -/

/-- The 32-bit clock shows the tick `n`. -/
structure ClockAt {τ : Type} (d : DelayedLists τ) (n : Nat) : Prop where
  tick : d.xTickCount.toNat = n % 2 ^ 32
  overflows : d.xNumOfOverflows.toNat = n / 2 ^ 32 % 2 ^ 32

/-- Whether the wake time, seen through 32 bits, lies ahead. -/
theorem shouldDelay_iff {p n inc : Nat} (hp : p ≤ n) (hlag : n < p + 2 ^ 32) (hinc : inc < 2 ^ 32) :
    (if n % 2 ^ 32 < p % 2 ^ 32 then
        (p % 2 ^ 32 + inc) % 2 ^ 32 < p % 2 ^ 32 ∧ n % 2 ^ 32 < (p % 2 ^ 32 + inc) % 2 ^ 32
      else (p % 2 ^ 32 + inc) % 2 ^ 32 < p % 2 ^ 32 ∨
        n % 2 ^ 32 < (p % 2 ^ 32 + inc) % 2 ^ 32) ↔ n < p + inc := by
  split
  · omega
  · omega

section
variable {τ : Type} {d : DelayedLists τ} {n : Nat}

/-- **The wake time is judged right**, when the call comes less than 2^32 ticks after the
previous one. -/
theorem xTaskDelayUntil_eq (h : ClockAt d n) {p : Nat} (hp : p ≤ n) (hlag : n < p + 2 ^ 32) (xTimeIncrement : UInt32) :
    d.xTaskDelayUntil (UInt32.ofNat p) xTimeIncrement =
      (UInt32.ofNat (p + xTimeIncrement.toNat),
        if n < p + xTimeIncrement.toNat then some (UInt32.ofNat (p + xTimeIncrement.toNat - n)) else none) := by
  have htick := h.tick
  have hinc := xTimeIncrement.toNat_lt
  have hwake : UInt32.ofNat p + xTimeIncrement = UInt32.ofNat (p + xTimeIncrement.toNat) := by
    rw [UInt32.ofNat_add, UInt32.ofNat_toNat]
  have hjudged := shouldDelay_iff hp hlag hinc
  have hblock : n < p + xTimeIncrement.toNat → UInt32.ofNat (p + xTimeIncrement.toNat) - d.xTickCount =
      UInt32.ofNat (p + xTimeIncrement.toNat - n) := by
    intro hlt
    apply UInt32.toNat_inj.mp
    rw [UInt32.toNat_sub, UInt32.toNat_ofNat', UInt32.toNat_ofNat', htick]
    omega
  have hlt : d.xTickCount < UInt32.ofNat p ↔ n % 2 ^ 32 < p % 2 ^ 32 := by
    rw [UInt32.lt_iff_toNat_lt, htick, UInt32.toNat_ofNat']
  have hwrapped : UInt32.ofNat p + xTimeIncrement < UInt32.ofNat p ↔
      (p % 2 ^ 32 + xTimeIncrement.toNat) % 2 ^ 32 < p % 2 ^ 32 := by
    rw [UInt32.lt_iff_toNat_lt, UInt32.toNat_add, UInt32.toNat_ofNat']
  have hahead : UInt32.ofNat p + xTimeIncrement > d.xTickCount ↔
      n % 2 ^ 32 < (p % 2 ^ 32 + xTimeIncrement.toNat) % 2 ^ 32 := by
    rw [gt_iff_lt, UInt32.lt_iff_toNat_lt, htick, UInt32.toNat_add, UInt32.toNat_ofNat']
  have hshould : (if d.xTickCount < UInt32.ofNat p then
        decide (UInt32.ofNat p + xTimeIncrement < UInt32.ofNat p) && decide (UInt32.ofNat p + xTimeIncrement > d.xTickCount)
      else decide (UInt32.ofNat p + xTimeIncrement < UInt32.ofNat p) ||
        decide (UInt32.ofNat p + xTimeIncrement > d.xTickCount)) = decide (n < p + xTimeIncrement.toNat) := by
    rw [Bool.eq_iff_iff, decide_eq_true_iff, ← hjudged]
    by_cases hwrap : d.xTickCount < UInt32.ofNat p
    · rw [if_pos hwrap, if_pos (hlt.mp hwrap), Bool.and_eq_true, decide_eq_true_iff, decide_eq_true_iff, hwrapped, hahead]
    · rw [if_neg hwrap, if_neg (hlt.not.mp hwrap), Bool.or_eq_true, decide_eq_true_iff, decide_eq_true_iff, hwrapped,
        hahead]
  simp only [DelayedLists.xTaskDelayUntil, hshould, decide_eq_true_eq]
  rw [hwake]
  split
  · next hdelay => rw [hblock hdelay]
  · rfl

/-- **The time is judged right**, when the check comes less than 2^32 ticks after the last
one. -/
theorem xTaskCheckForTimeOut_eq (h : ClockAt d n) {d₀ : DelayedLists τ} {n₀ : Nat} (h₀ : ClockAt d₀ n₀) (hle : n₀ ≤ n)
    (hgap : n < n₀ + 2 ^ 32) (pxTicksToWait : UInt32) :
    d.xTaskCheckForTimeOut d₀.vTaskInternalSetTimeOutState pxTicksToWait =
      if n₀ + pxTicksToWait.toNat ≤ n then (true, d₀.vTaskInternalSetTimeOutState, 0)
      else (false, d.vTaskInternalSetTimeOutState, UInt32.ofNat (n₀ + pxTicksToWait.toNat - n)) := by
  have hlt := pxTicksToWait.toNat_lt
  -- the count has passed its old value again only if a whole round has gone by
  have hround : ¬ (d.xNumOfOverflows ≠ d₀.vTaskInternalSetTimeOutState.xOverflowCount ∧
      d.xTickCount ≥ d₀.vTaskInternalSetTimeOutState.xTimeOnEntering) := by
    show ¬ (d.xNumOfOverflows ≠ d₀.xNumOfOverflows ∧ d.xTickCount ≥ d₀.xTickCount)
    rintro ⟨hoverflows, hticks⟩
    rw [Ne, ← UInt32.toNat_inj, h.overflows, h₀.overflows] at hoverflows
    rw [ge_iff_le, UInt32.le_iff_toNat_le, h.tick, h₀.tick] at hticks
    omega
  have helapsed : (d.xTickCount - d₀.xTickCount).toNat = n - n₀ := by
    rw [UInt32.toNat_sub, h.tick, h₀.tick]
    omega
  have hentered : d₀.vTaskInternalSetTimeOutState.xTimeOnEntering = d₀.xTickCount := rfl
  simp only [DelayedLists.xTaskCheckForTimeOut]
  rw [if_neg hround, hentered]
  by_cases hup : n₀ + pxTicksToWait.toNat ≤ n
  · rw [if_pos hup, if_neg]
    rw [UInt32.lt_iff_toNat_lt, helapsed]
    omega
  · have hearly : d.xTickCount - d₀.xTickCount < pxTicksToWait := by
      rw [UInt32.lt_iff_toNat_lt, helapsed]
      omega
    have hleft : pxTicksToWait - (d.xTickCount - d₀.xTickCount) = UInt32.ofNat (n₀ + pxTicksToWait.toNat - n) := by
      apply UInt32.toNat_inj.mp
      rw [UInt32.toNat_sub_of_le _ _ (UInt32.le_of_lt hearly), helapsed, UInt32.toNat_ofNat']
      omega
    rw [if_neg hup, if_pos hearly, hleft]

end

/-! ## In a run -/

variable {τ ε : Type} {uxPriority : τ → Priority} [DecidableEq τ] [DecidableEq ε] {idle : τ}
  {s s' : State τ ε uxPriority}

omit [DecidableEq τ] [DecidableEq ε] in
theorem clockAt {c : Alarm τ} (h : Clocked s c) : ClockAt s.delayed s.ticks :=
  ⟨h.2 ▸ h.1.tick, h.2 ▸ h.1.overflows⟩

theorem forward_exec (hgood : Good idle s) (hclock : ∃ c, Clocked s c) {es : List (Event ε)}
    (hrun : exec (step idle) s es = some s') : Good idle s' ∧ (∃ c, Clocked s' c) ∧ s.ticks ≤ s'.ticks := by
  refine exec_inv (I := fun u => Good idle u ∧ (∃ c, Clocked u c) ∧ s.ticks ≤ u.ticks) ?_ hrun
    ⟨hgood, hclock, Nat.le_refl _⟩
  rintro u e v ⟨hu, ⟨c, hc⟩, hle⟩ hs
  obtain ⟨c', hc'⟩ := advances_step hu hc (step_cases hs)
  exact ⟨good_step hu (step_cases hs), ⟨c', hc'.clocked⟩, hle.trans hc'.forward⟩

/-- The calls of `xTaskDelayUntil` that the task `t` makes in a loop, counted from 0: the state
in which it makes one, and its `xLastWakeTime` then, which it has first read in `s₀`. No
call comes 2^32 ticks after it should. -/
inductive Calls (idle t : τ) (xTimeIncrement : UInt32) (s₀ : State τ ε uxPriority) :
    Nat → State τ ε uxPriority → UInt32 → Prop where
  | first {s : State τ ε uxPriority} {es : List (Event ε)} (hrun : exec (step idle) s₀ es = some s)
    (hlag : s.ticks < s₀.ticks + 2 ^ 32) : Calls idle t xTimeIncrement s₀ 0 s s₀.delayed.xTickCount
  | late {n : Nat} {s s' : State τ ε uxPriority} {prev : UInt32} {es : List (Event ε)}
    (h : Calls idle t xTimeIncrement s₀ n s prev) (hcall : (s.delayed.xTaskDelayUntil prev xTimeIncrement).2 = none)
    (hrun : exec (step idle) s es = some s')
    (hlag : s'.ticks < s₀.ticks + (n + 1) * xTimeIncrement.toNat + 2 ^ 32) :
    Calls idle t xTimeIncrement s₀ (n + 1) s' (s.delayed.xTaskDelayUntil prev xTimeIncrement).1
  | slept {n : Nat} {s u s' : State τ ε uxPriority} {prev x : UInt32} {es : List (Event ε)}
    (h : Calls idle t xTimeIncrement s₀ n s prev) (hcurrent : s.pxCurrentTCB = t)
    (hcall : (s.delayed.xTaskDelayUntil prev xTimeIncrement).2 = some x) (hblock : step idle s (.delay x) = some u)
    (hrun : exec (step idle) u es = some s') (hready : s'.ready.Ready t)
    (hlag : s'.ticks < s₀.ticks + (n + 1) * xTimeIncrement.toNat + 2 ^ 32) :
    Calls idle t xTimeIncrement s₀ (n + 1) s' (s.delayed.xTaskDelayUntil prev xTimeIncrement).1

omit [DecidableEq τ] [DecidableEq ε] in
/-- What the call judges, given when the last wake time was. -/
theorem call_eq (hclock : ∃ c, Clocked s c) {p : Nat} {prev : UInt32} (hprev : prev = UInt32.ofNat p) (hp : p ≤ s.ticks)
    (hlag : s.ticks < p + 2 ^ 32) (xTimeIncrement : UInt32) :
    s.delayed.xTaskDelayUntil prev xTimeIncrement =
      (UInt32.ofNat (p + xTimeIncrement.toNat),
        if s.ticks < p + xTimeIncrement.toNat then some (UInt32.ofNat (p + xTimeIncrement.toNat - s.ticks)) else none) := by
  obtain ⟨c, hc⟩ := hclock
  rw [hprev]
  exact xTaskDelayUntil_eq (clockAt hc) hp hlag xTimeIncrement

theorem calls_inv {t : τ} {xTimeIncrement : UInt32} {s₀ : State τ ε uxPriority} (hgood : Good idle s₀)
    (hclock : ∃ c, Clocked s₀ c) {n : Nat} {prev : UInt32} (h : Calls idle t xTimeIncrement s₀ n s prev) :
    Good idle s ∧ (∃ c, Clocked s c) ∧ prev = UInt32.ofNat (s₀.ticks + n * xTimeIncrement.toNat) ∧
      s₀.ticks + n * xTimeIncrement.toNat ≤ s.ticks ∧ s.ticks < s₀.ticks + n * xTimeIncrement.toNat + 2 ^ 32 := by
  induction h with
  | first hrun hlag =>
    obtain ⟨hgood', hclock', hforward⟩ := forward_exec hgood hclock hrun
    obtain ⟨c, hc⟩ := hclock
    refine ⟨hgood', hclock', ?_, by omega, by omega⟩
    apply UInt32.toNat_inj.mp
    rw [(clockAt hc).tick, UInt32.toNat_ofNat', Nat.zero_mul, Nat.add_zero]
  | @late n s s' prev es h hcall hrun hlag ih =>
    obtain ⟨hgood', hclock', hprev, hle, hlt⟩ := ih
    have hnext : s₀.ticks + (n + 1) * xTimeIncrement.toNat = s₀.ticks + n * xTimeIncrement.toNat + xTimeIncrement.toNat := by
      rw [Nat.succ_mul, Nat.add_assoc]
    have hjudged := call_eq hclock' hprev hle hlt xTimeIncrement
    obtain ⟨hgood'', hclock'', hforward⟩ := forward_exec hgood' hclock' hrun
    rw [hjudged] at hcall ⊢
    rw [hnext] at hlag ⊢
    refine ⟨hgood'', hclock'', rfl, ?_, hlag⟩
    by_contra hlt
    rw [if_pos (by omega)] at hcall
    cases hcall
  | @slept n s u s' prev x es h hcurrent hcall hblock hrun hready hlag ih =>
    obtain ⟨hgood', hclock', hprev, hle, hlt⟩ := ih
    have hnext : s₀.ticks + (n + 1) * xTimeIncrement.toNat = s₀.ticks + n * xTimeIncrement.toNat + xTimeIncrement.toNat := by
      rw [Nat.succ_mul, Nat.add_assoc]
    have hjudged := call_eq hclock' hprev hle hlt xTimeIncrement
    rw [hjudged] at hcall ⊢
    rw [hnext] at hlag ⊢
    have hearly : s.ticks < s₀.ticks + n * xTimeIncrement.toNat + xTimeIncrement.toNat := by
      by_contra hnot
      rw [if_neg hnot] at hcall
      cases hcall
    rw [if_pos hearly, Option.some.injEq] at hcall
    have hx : s.ticks + x.toNat = s₀.ticks + n * xTimeIncrement.toNat + xTimeIncrement.toNat := by
      have := xTimeIncrement.toNat_lt
      rw [← hcall, UInt32.toNat_ofNat', Nat.mod_eq_of_lt (by omega)]
      omega
    obtain ⟨hgoodu, hsleeping, hfree⟩ := asleep_delay hgood' hclock' hblock
    obtain ⟨hgood'', hclock'', hasleep⟩ := asleep_exec hgoodu hsleeping hfree hrun
    refine ⟨hgood'', hclock'', rfl, ?_, hlag⟩
    -- a task that is ready again does not sleep any more
    by_contra hbefore
    have hblocked := (hasleep (by omega)).1.blocked.1
    exact hgood''.filed.not_delayed (hcurrent ▸ hready) hblocked

/-- **No drift.** -/
theorem no_drift {t r : τ} {ts : List τ} (hnodup : (r :: ts).Nodup) (hidle : idle ∈ r :: ts) {es : List (Event ε)}
    {s₀ : State τ ε uxPriority} (h₀ : exec (step idle) (start r ts) es = some s₀) {xTimeIncrement : UInt32} {n : Nat}
    {prev : UInt32} (h : Calls idle t xTimeIncrement s₀ n s prev) :
    s₀.ticks + n * xTimeIncrement.toNat ≤ s.ticks ∧
    s.delayed.xTaskDelayUntil prev xTimeIncrement =
      (UInt32.ofNat (s₀.ticks + (n + 1) * xTimeIncrement.toNat),
        if s.ticks < s₀.ticks + (n + 1) * xTimeIncrement.toNat then
          some (UInt32.ofNat (s₀.ticks + (n + 1) * xTimeIncrement.toNat - s.ticks))
        else none) := by
  obtain ⟨-, hclock, hprev, hle, hlag⟩ := calls_inv (good_exec hnodup hidle h₀) (clocked_exec hnodup hidle h₀) h
  refine ⟨hle, ?_⟩
  rw [call_eq hclock hprev hle hlag, Nat.succ_mul, ← Nat.add_assoc]

/-- A sensor with a period of two ticks, whose first call comes after one: it sleeps for the
other. -/
theorem no_drift_sensor :
    ∃ s u s', exec (step .idle) (start .sensor [.idle] : State Task Waiting Task.uxPriority) [.tick, .suspend] = some s ∧
      step .idle s (.delay 1) = some u ∧ exec (step .idle) u [.resume true, .yield, .pendSV, .tick] = some s' ∧
      2 ≤ s'.ticks := by
  have hstart : exec (step .idle) (start .sensor [.idle] : State Task Waiting Task.uxPriority) [.tick, .suspend] =
      some _ := rfl
  have hfirst : Calls .idle Task.sensor 2 (start .sensor [.idle] : State Task Waiting Task.uxPriority) 0 _ _ :=
    .first hstart (by decide)
  have hsecond := Calls.slept hfirst rfl rfl rfl
    (show exec (step Task.idle) _ [.resume true, .yield, .pendSV, .tick] = some _ from rfl) (by decide) (by decide)
  have hnodup : [Task.sensor, .idle].Nodup := by decide
  exact ⟨_, _, _, rfl, rfl, rfl, (no_drift hnodup (by decide) (exec_nil _) hsecond).1⟩

/-- The checks of a loop whose time-out state is `pxTimeOut`, one in each of the states, until
one says that the time is up. -/
def checks (pxTimeOut : TimeOut_t) (pxTicksToWait : UInt32) : List (State τ ε uxPriority) → List Bool
  | [] => []
  | s :: ss =>
    let r := s.delayed.xTaskCheckForTimeOut pxTimeOut pxTicksToWait
    r.1 :: if r.1 then [] else checks r.2.1 r.2.2 ss

/-- In which of the states the tick `due` has come, up to the first. -/
def upAt (due : Nat) : List (State τ ε uxPriority) → List Bool
  | [] => []
  | s :: ss => decide (due ≤ s.ticks) :: if due ≤ s.ticks then [] else upAt due ss

/-- A later state of the run, less than 2^32 ticks on. -/
def Soon (idle : τ) (s s' : State τ ε uxPriority) : Prop :=
  (∃ es : List (Event ε), exec (step idle) s es = some s') ∧ s'.ticks < s.ticks + 2 ^ 32

theorem checks_eq {ss : List (State τ ε uxPriority)} (hgood : Good idle s) (hclock : ∃ c, Clocked s c)
    (hsoon : (s :: ss).IsChain (Soon idle)) (pxTicksToWait : UInt32) :
    checks s.delayed.vTaskInternalSetTimeOutState pxTicksToWait ss = upAt (s.ticks + pxTicksToWait.toNat) ss := by
  induction ss generalizing s pxTicksToWait with
  | nil => rfl
  | cons s' ss ih =>
    obtain ⟨⟨⟨es, hrun⟩, hgap⟩, htail⟩ := List.isChain_cons_cons.mp hsoon
    obtain ⟨hgood', hclock', hforward⟩ := forward_exec hgood hclock hrun
    obtain ⟨c, hc⟩ := hclock
    obtain ⟨c', hc'⟩ := hclock'
    have hjudged := xTaskCheckForTimeOut_eq (clockAt hc') (clockAt hc) hforward hgap pxTicksToWait
    simp only [checks, upAt, hjudged]
    by_cases hup : s.ticks + pxTicksToWait.toNat ≤ s'.ticks
    · simp [hup]
    · -- what is left to wait ends at the same tick
      have hleft : s'.ticks + (UInt32.ofNat (s.ticks + pxTicksToWait.toNat - s'.ticks)).toNat =
          s.ticks + pxTicksToWait.toNat := by
        have := pxTicksToWait.toNat_lt
        rw [UInt32.toNat_ofNat', Nat.mod_eq_of_lt (by omega)]
        omega
      simp only [if_neg hup, decide_eq_false hup, Bool.false_eq_true, if_false]
      rw [ih hgood' ⟨c', hc'⟩ htail, hleft]

/-- **A wait ends when its time is up.** The loops of `queue.c` give up at the first check that
comes `xTicksToWait` ticks or more after they have set the time-out state. -/
theorem timeout_exact {r : τ} {ts : List τ} (hnodup : (r :: ts).Nodup) (hidle : idle ∈ r :: ts) {es : List (Event ε)}
    (h : exec (step idle) (start r ts : State τ ε uxPriority) es = some s) {ss : List (State τ ε uxPriority)}
    (hsoon : (s :: ss).IsChain (Soon idle)) (xTicksToWait : UInt32) :
    checks s.delayed.vTaskInternalSetTimeOutState xTicksToWait ss = upAt (s.ticks + xTicksToWait.toNat) ss :=
  checks_eq (good_exec hnodup hidle h) (clocked_exec hnodup hidle h) hsoon xTicksToWait

/-- A wait of two ticks, checked after each. -/
theorem timeout_exact_two :
    ∃ s₁ s₂, exec (step .idle) firmware [.tick] = some s₁ ∧ exec (step .idle) firmware [.tick, .tick] = some s₂ ∧
      checks firmware.delayed.vTaskInternalSetTimeOutState 2 [s₁, s₂] = [false, true] := by
  have hnodup : (Task.sensor :: createdAfter).Nodup := by decide
  have hsoon : List.IsChain (Soon Task.idle) [firmware, _, _] :=
    List.isChain_cons_cons.mpr ⟨⟨⟨[.tick], rfl⟩, by decide⟩,
      List.isChain_cons_cons.mpr ⟨⟨⟨[.tick], rfl⟩, by decide⟩, List.isChain_singleton _⟩⟩
  exact ⟨_, _, rfl, rfl, timeout_exact hnodup (by decide) (exec_nil _) hsoon 2⟩

end WindowFilter.Scheduler
