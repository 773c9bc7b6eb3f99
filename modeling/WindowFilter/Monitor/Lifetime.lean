import WindowFilter.Monitor.Model

/- The life of the monitor's array. It is allocated once, before the loop, for the number
   of tasks at that time, and freed at the end of every iteration; the kernel is told that
   it has room for `MAX_TASKS`.

   * `Protocol`: what every use of the array asks.
   * `FirstCall`: the steps at which it is so. The array lives through one iteration, in
     which the kernel fits as many entries as have been allocated, or none.
   * `protocol_iff`: the runs that keep to the one are those that keep to the other. -/
namespace WindowFilter.Monitor
open Steps

def ArrayLive (s : State) : Prop := ∃ p ∈ s.pxTaskStatusArray, s.heap.Live p

/-- Whether the next step uses the array by the rules: the kernel is handed, the report
reads, and `vPortFree` is given a block that is alive, and the kernel writes no more
entries than have been allocated for it. -/
def Protocol (s : State) : Event → Prop
  | .states tasks _ => s.pc = .getSystemState →
      ∃ p ∈ s.pxTaskStatusArray, s.heap.Live p ∧ (uxTaskGetSystemState MAX_TASKS tasks).length ≤ s.heap.size p
  | .next =>
    match s.pc with
    | .report i => i < s.uxTasksReturned → ArrayLive s
    | .free => ArrayLive s
    | _ => True
  | .tasks _ | .memory _ => True

/-- A call of `uxTaskGetSystemState` is the first one, with no more tasks than were
counted, or with too many for `MAX_TASKS`. -/
def FirstCall (s : State) : Event → Prop
  | .states tasks _ => s.pc = .getSystemState →
      s.calls = 0 ∧ (tasks.length ≤ s.uxArraySize ∨ MAX_TASKS < tasks.length)
  | _ => True

/-! ## What one step can do -/

inductive Step (s : State) : Event → State → Prop where
  | number (n : Nat) (hpc : s.pc = .number) :
    Step s (.tasks n) { s with uxArraySize := n, pc := .malloc }
  | malloc (hpc : s.pc = .malloc) :
    Step s (.memory true) { s with heap := (s.heap.alloc s.uxArraySize).1,
                                   pxTaskStatusArray := some (s.heap.alloc s.uxArraySize).2, pc := .test }
  | noMemory (hpc : s.pc = .malloc) : Step s (.memory false) { s with pc := .deleted }
  | test (p : Nat) (hpc : s.pc = .test) (hp : s.pxTaskStatusArray = some p) :
    Step s .next { s with pc := .getSystemState }
  | noArray (uart : List UInt8) (hpc : s.pc = .test) (hp : s.pxTaskStatusArray = none) :
    Step s .next { s with uart := uart, pc := .delay }
  | states (tasks : List TaskStatus_t) (runTime total : UInt32) (uart : List UInt8) (hpc : s.pc = .getSystemState) :
    Step s (.states tasks runTime)
      { s with entries := uxTaskGetSystemState MAX_TASKS tasks,
               uxTasksReturned := (uxTaskGetSystemState MAX_TASKS tasks).length,
               ulTotalRunTime := total, uart := uart, calls := s.calls + 1, pc := .report 0 }
  | report (i : Nat) (uart buffer_string : List UInt8) (hpc : s.pc = .report i) (hi : i < s.uxTasksReturned) :
    Step s .next { s with uart := uart, buffer_string := buffer_string, pc := .report (i + 1) }
  | total (i : Nat) (uart buffer_string : List UInt8) (hpc : s.pc = .report i) (hi : ¬ i < s.uxTasksReturned) :
    Step s .next { s with uart := uart, buffer_string := buffer_string, pc := .free }
  | free (p : Nat) (hpc : s.pc = .free) (hp : s.pxTaskStatusArray = some p) :
    Step s .next { s with heap := s.heap.free p, pc := .delay }
  | freeNull (hpc : s.pc = .free) (hp : s.pxTaskStatusArray = none) : Step s .next { s with pc := .delay }
  | delay (hpc : s.pc = .delay) : Step s .next { s with pc := .test }

theorem step_cases {s s' : State} {e : Event} (h : step s e = some s') : Step s e s' := by
  cases e with
  | tasks n =>
    simp only [step] at h
    split at h
    · next hpc => exact Option.some.inj h ▸ .number n hpc
    · cases h
  | memory available =>
    simp only [step] at h
    split at h
    · next hpc =>
      cases available with
      | true => exact Option.some.inj h ▸ .malloc hpc
      | false => exact Option.some.inj h ▸ .noMemory hpc
    · cases h
  | states tasks runTime =>
    simp only [step] at h
    split at h
    · next hpc => exact Option.some.inj h ▸ .states tasks runTime _ _ hpc
    · cases h
  | next =>
    cases hpc : s.pc with
    | number => simp [step, hpc] at h
    | malloc => simp [step, hpc] at h
    | getSystemState => simp [step, hpc] at h
    | deleted => simp [step, hpc] at h
    | test =>
      simp only [step, hpc] at h
      split at h
      · next p hp => exact Option.some.inj h ▸ .test p hpc hp
      · next hp => exact Option.some.inj h ▸ .noArray _ hpc hp
    | report i =>
      simp only [step, hpc] at h
      split at h
      · next hi =>
        simp only [Option.bind_eq_bind, Option.bind_eq_some_iff, Option.some.injEq] at h
        obtain ⟨t, -, r, -, rfl⟩ := h
        exact .report i _ _ hpc hi
      · next hi =>
        simp only [Option.bind_eq_bind, Option.bind_eq_some_iff, Option.some.injEq] at h
        obtain ⟨r, -, rfl⟩ := h
        exact .total i _ _ hpc hi
    | free =>
      simp only [step, hpc] at h
      split at h
      · next p hp => exact Option.some.inj h ▸ .free p hpc hp
      · next hp => exact Option.some.inj h ▸ .freeNull hpc hp
    | delay =>
      simp only [step, hpc, Option.some.injEq] at h
      exact h ▸ .delay hpc

/-! ## The invariant -/

theorem written_le_iff {tasks : List TaskStatus_t} {n : Nat} :
    (uxTaskGetSystemState MAX_TASKS tasks).length ≤ n ↔ tasks.length ≤ n ∨ MAX_TASKS < tasks.length := by
  rw [uxTaskGetSystemState]
  split_ifs with h
  · omega
  · rw [List.length_nil]
    omega

/-- Where the array is in its life at each statement: not allocated yet, alive until the
end of the first iteration, and dead from then on. -/
def Inv (s : State) : Prop :=
  match s.pc with
  | .number | .malloc => s.calls = 0
  | .test | .getSystemState =>
    ∃ p, s.pxTaskStatusArray = some p ∧ (s.calls = 0 ∧ s.heap.Holds p s.uxArraySize ∨ s.calls ≠ 0 ∧ ¬ s.heap.Live p)
  | .report _ | .free => ∃ p, s.pxTaskStatusArray = some p ∧ s.calls ≠ 0 ∧ s.heap.Live p
  | .delay => ∃ p, s.pxTaskStatusArray = some p ∧ s.calls ≠ 0 ∧ ¬ s.heap.Live p
  | .deleted => True

theorem protocol_iff_firstCall {s : State} (hi : Inv s) (e : Event) : Protocol s e ↔ FirstCall s e := by
  unfold Inv at hi
  cases e with
  | tasks n => exact Iff.rfl
  | memory available => exact Iff.rfl
  | states tasks runTime =>
    by_cases hpc : s.pc = .getSystemState
    · simp only [hpc] at hi
      obtain ⟨p, hp, ⟨hcalls, hholds⟩ | ⟨hcalls, hdead⟩⟩ := hi
      · simp only [Protocol, FirstCall, hpc, hp, hcalls, true_implies, true_and, Option.mem_def, Option.some.injEq,
          exists_eq_left', hholds.live, hholds.size_eq, written_le_iff]
      · simp only [Protocol, FirstCall, hpc, hp, hcalls, true_implies, false_and, Option.mem_def, Option.some.injEq,
          exists_eq_left', hdead]
    · simp only [Protocol, FirstCall, hpc, false_implies]
  | next =>
    refine ⟨fun _ => trivial, fun _ => ?_⟩
    rw [Protocol]
    cases hpc : s.pc with
    | report i =>
      simp only [hpc] at hi
      obtain ⟨p, hp, -, hlive⟩ := hi
      exact fun _ => ⟨p, hp, hlive⟩
    | free =>
      simp only [hpc] at hi
      obtain ⟨p, hp, -, hlive⟩ := hi
      exact ⟨p, hp, hlive⟩
    | number | malloc | test | getSystemState | delay | deleted => trivial

theorem inv_step {s s' : State} {e : Event} (hi : Inv s) (hfirst : FirstCall s e) (h : Step s e s') : Inv s' := by
  unfold Inv at hi
  cases h with
  | number n hpc =>
    rw [hpc] at hi
    exact hi
  | malloc hpc =>
    rw [hpc] at hi
    exact ⟨_, rfl, .inl ⟨hi, s.heap.alloc_holds s.uxArraySize⟩⟩
  | noMemory hpc => trivial
  | test p hpc hp =>
    rw [hpc] at hi
    exact hi
  | noArray uart hpc hp =>
    rw [hpc] at hi
    obtain ⟨p, hp', -⟩ := hi
    rw [hp] at hp'
    cases hp'
  | states tasks runTime total uart hpc =>
    rw [hpc] at hi
    obtain ⟨hcalls, -⟩ := hfirst hpc
    obtain ⟨p, hp, ⟨-, hholds⟩ | ⟨hnot, -⟩⟩ := hi
    · exact ⟨p, hp, Nat.succ_ne_zero _, hholds.live⟩
    · exact absurd hcalls hnot
  | report i uart buffer_string hpc hlt =>
    rw [hpc] at hi
    exact hi
  | total i uart buffer_string hpc hlt =>
    rw [hpc] at hi
    exact hi
  | free p hpc hp =>
    rw [hpc] at hi
    obtain ⟨p', hp', hcalls, -⟩ := hi
    exact ⟨p, hp, hcalls, s.heap.not_live_free p⟩
  | freeNull hpc hp =>
    rw [hpc] at hi
    obtain ⟨p, hp', -⟩ := hi
    rw [hp] at hp'
    cases hp'
  | delay hpc =>
    rw [hpc] at hi
    obtain ⟨p, hp, hcalls, hdead⟩ := hi
    exact ⟨p, hp, .inr ⟨hcalls, hdead⟩⟩

/-! ## Runs -/

/-- **The array is used by the rules in the first iteration only.** In every run of the
monitor, whatever the numbers of tasks: every use of the array is of a block that is
alive and large enough, and none is freed twice, if and only if `uxTaskGetSystemState` is
called at most once, and then with no more tasks than had been counted or with more than
`MAX_TASKS`. -/
theorem protocol_iff (ulTotalRunTime : UInt32) (buffer_string : List UInt8) (es : List Event) :
    AllSteps step Protocol (init ulTotalRunTime buffer_string) es ↔
      AllSteps step FirstCall (init ulTotalRunTime buffer_string) es := by
  apply allSteps_iff (I := Inv)
  · intro s e s' hi hprotocol hs
    exact inv_step hi ((protocol_iff_firstCall hi e).mp hprotocol) (step_cases hs)
  · intro s e hi
    exact protocol_iff_firstCall hi e
  · rfl

/-- The monitor up to its second call of `uxTaskGetSystemState`, with one task. -/
def secondCall : List Event :=
  [.tasks 1, .memory true, .next, .states [⟨Tx.chars "Monitor", 1, .eRunning, 1, 5, 20⟩] 10] ++
    List.replicate 5 .next

/-- The second iteration hands the kernel the array that the first one has freed. -/
theorem array_outlived :
    ¬ AllSteps step Protocol (init 0 (List.replicate 64 0)) (secondCall ++ [.states [] 20]) := by
  have hrun : exec step (init 0 (List.replicate 64 0)) secondCall =
      some ((exec step (init 0 (List.replicate 64 0)) secondCall).getD (init 0 [])) := by decide +kernel
  intro h
  obtain ⟨p, hp, hlive, -⟩ := ((allSteps_append hrun).mp h).2.1 (by decide +kernel)
  have hptr : ((exec step (init 0 (List.replicate 64 0)) secondCall).getD (init 0 [])).pxTaskStatusArray = some 0 := by
    decide +kernel
  rw [hptr, Option.mem_def, Option.some.injEq] at hp
  subst hp
  exact absurd hlive (by decide +kernel)

end WindowFilter.Monitor
