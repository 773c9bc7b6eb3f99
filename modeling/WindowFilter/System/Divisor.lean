import WindowFilter.System.Model
import WindowFilter.Pipeline.Refinement

/- Can the filter divide by zero? The receiver's clamp brings a negative window up to 1
   and a large one down to `MAX_VALUES_AVERAGE`, and lets 0 through. So the divisor is
   in range exactly in the runs that never read 0 from `valor_ventana`
   (`reads_nonzero_iff_divisor_in_range`), and then the summing loop stays inside
   `values` (`receiver_never_faults`). A `'D'` at the initial window is enough for a 0. -/
namespace WindowFilter.System
open Steps Pipeline

/-- At the summing loop and at the division, `N` is a window the buffer has. -/
def DivisorInRange (p : Pipeline.State) : Prop :=
  ((∃ i, p.receiver.pc = .sum i) ∨ p.receiver.pc = .divide) →
    1 ≤ p.receiver.N ∧ p.receiver.N ≤ MAX_VALUES_AVERAGE

/-- `get_N_value` does not return 0 to the receiver's loop. -/
def ReadsNonZero (s : State) (e : Event) : Prop :=
  e = .task .receiver → s.pipe.receiver.pc = .read → s.window.valor_ventana ≠ 0

instance (s : State) (e : Event) : Decidable (ReadsNonZero s e) := by
  unfold ReadsNonZero; infer_instance

def Safe (p : Pipeline.State) : Prop := DivisorInRange p ∧ p.receiver.pc ≠ .fault

theorem safe_init : Safe init.pipe := by
  refine ⟨?_, by decide⟩
  intro h
  obtain ⟨i, hi⟩ | hi := h
  · cases hi
  · cases hi

theorem step_receiver_eq {v : Int} {t : Task} {p p' : Pipeline.State} (h : Pipeline.step v p t = some p')
    (ht : t ≠ .receiver) : p'.receiver = p.receiver := by
  cases t with
  | sensor => cases sensor_step h <;> rfl
  | receiver => exact absurd rfl ht
  | display => cases display_step h <;> rfl

theorem safe_receiver {v : Int} {p p' : Pipeline.State} (hs : Safe p)
    (hv : p.receiver.pc = .read → v ≠ 0) (h : ReceiverStep v p p') : Safe p' := by
  obtain ⟨hrange, hfault⟩ := hs
  unfold Safe DivisorInRange at *
  cases h with
  | start hpc => simp
  | receive value q hpc hq => simp
  | shift hpc => simp
  | read hpc =>
    obtain ⟨hN, hlo, hhi⟩ := clampN_eq (hv hpc)
    refine ⟨fun _ => ?_, by simp⟩
    dsimp only
    omega
  | add i hi hpc hlt => exact ⟨fun _ => hrange (.inl ⟨i, hpc⟩), by simp⟩
  | summed i hpc hlt => exact ⟨fun _ => hrange (.inl ⟨i, hpc⟩), by simp⟩
  | outside i hpc hlt hi =>
    have := hrange (.inl ⟨i, hpc⟩)
    omega
  | divide hpc hN => simp
  | divideByZero hpc hN =>
    have := hrange (.inr hpc)
    omega
  | send q hpc hroom hq => simp

/-- A step that does not read 0 keeps the divisor in range. -/
theorem safe_step {s s' : State} {e : Event} (hs : Safe s.pipe) (hg : ReadsNonZero s e)
    (h : step s e = some s') : Safe s'.pipe := by
  cases e with
  | window e =>
    rw [(step_window h).2]
    exact hs
  | task t =>
    obtain ⟨hp, _⟩ := step_task h
    by_cases ht : t = .receiver
    · subst ht
      exact safe_receiver hs (hg rfl) (receiver_step hp)
    · unfold Safe DivisorInRange at *
      rw [step_receiver_eq hp ht]
      exact hs

/-- A read of 0 goes through the clamp: the summing loop is reached with `N` at 0. -/
theorem read_zero_breaks {s s' : State} (hpc : s.pipe.receiver.pc = .read) (h0 : s.window.valor_ventana = 0)
    (h : step s (.task .receiver) = some s') : ¬ DivisorInRange s'.pipe := by
  have hp := (step_task h).1
  simp only [Pipeline.step, vTaskReceiverDataSensor, hpc, h0, Option.some.injEq] at hp
  intro hrange
  unfold DivisorInRange at hrange
  rw [← hp] at hrange
  have hN : (1 : Int) ≤ clampN 0 := (hrange (.inl ⟨0, rfl⟩)).1
  exact absurd hN (by decide)

/-- **The divisor is in range exactly in the runs that never read 0.** In every run of
the application: `get_N_value` never returns 0 to the receiver's loop if and only if,
whenever the receiver is at the summing loop or at the division, `N` is between 1 and
`MAX_VALUES_AVERAGE`. -/
theorem reads_nonzero_iff_divisor_in_range {es : List Event} {s : State} (h : exec step init es = some s) :
    AllSteps step ReadsNonZero init es ↔ Always step (fun s => DivisorInRange s.pipe) init es := by
  refine ⟨?_, ?_⟩
  · intro hg
    exact always_of_inv (I := fun s => Safe s.pipe) (fun _ _ _ hs he hstep => safe_step hs he hstep)
      (fun _ hs => hs.1) hg safe_init
  · intro hrange
    by_contra hng
    -- right after the first read of 0 the receiver is at the summing loop with that 0
    obtain ⟨bs, e, cs, u, v, hes, hu, _, he, hv, -⟩ := exec_breaks h hng
    subst hes
    simp only [ReadsNonZero, Classical.not_imp, not_not] at he
    obtain ⟨htask, hpc, h0⟩ := he
    subst htask
    refine read_zero_breaks hpc h0 hv (always_iff.mp hrange (bs ++ [.task .receiver]) v ?_ ?_)
    · exact ⟨cs, by simp⟩
    · exact exec_snoc.mpr ⟨u, hu, hv⟩

/-- And then nothing is summed outside `values` and nothing is divided by 0. -/
theorem receiver_never_faults {es : List Event} {s : State} (h : exec step init es = some s)
    (hg : AllSteps step ReadsNonZero init es) : s.pipe.receiver.pc ≠ .fault :=
  (exec_inv_of (I := fun s => Safe s.pipe) (fun _ _ _ hs he hstep => safe_step hs he hstep) h hg safe_init).2

def firstSum : List Event := [.task .sensor, .task .sensor] ++ List.replicate 6 (.task .receiver)

theorem reads_nonzero_iff_divisor_in_range_first :
    AllSteps step ReadsNonZero init firstSum ↔ Always step (fun s => DivisorInRange s.pipe) init firstSum :=
  reads_nonzero_iff_divisor_in_range (s := (exec step init firstSum).getD init) rfl

/-- A `'D'` stored before the receiver reads its window. -/
def windowZero : List Event :=
  [.window (.isr Window.byteD), .window (.updater .receive), .window (.updater .store),
   .task .sensor, .task .sensor, .task .receiver, .task .receiver, .task .receiver, .task .receiver]

/-- After `windowZero` the receiver is at its summing loop with `N` at 0. -/
theorem divisor_zero :
    ¬ ∀ es s, exec step init es = some s → DivisorInRange s.pipe := by
  intro h
  have hrange := h windowZero ((exec step init windowZero).getD init) rfl (.inl ⟨0, by decide⟩)
  exact absurd hrange.1 (by decide)

end WindowFilter.System
