import WindowFilter.System.Model
import WindowFilter.Pipeline.Refinement

/- Is the window printed the window in force? `vTaskUpdateN` stores and prints any
   number; the receiver clamps its own copy. So the receiver averages as many samples
   as were announced up to `MAX_VALUES_AVERAGE`, and `MAX_VALUES_AVERAGE` from there on,
   while the number announced goes on growing.

   * `announces_step`: between the print and the next store, the number last printed
     is the global.
   * `next_averages`: the next iteration averages the window of the global.
   * `announced_in_force`: what a user who waits for the print can rely on. -/
namespace WindowFilter.System
open Steps Pipeline WindowSum

def Announcement : Window.Message → Option Int
  | .updated N => some N
  | _ => none

/-- The number last printed by `vTaskUpdateN`. -/
def announced (w : Window.State) : Option Int := w.uart.findSome? Announcement

/-- Everything sent has been stored and printed. -/
def Idle (w : Window.State) : Prop := Window.Drained w ∧ w.pc = .receive

instance (w : Window.State) : Decidable (Idle w) := inferInstanceAs (Decidable (_ ∧ _))

/-! ## The announcement and the global -/

/-- The number last printed is the global, unless the updater is about to print it. -/
structure Announces (w : Window.State) : Prop where
  stored : w.pc = .print → w.valor_ventana = w.N
  printed : w.pc ≠ .print → announced w = some w.valor_ventana ∨ announced w = none ∧ w.valor_ventana = 1

theorem announces_init : Announces Window.init := by
  refine ⟨?_, fun _ => .inr ⟨rfl, rfl⟩⟩
  intro h
  cases h

theorem announcement_ofDelta (d : Int) : Announcement (Window.Message.ofDelta d) = none := by
  unfold Window.Message.ofDelta
  split <;> rfl

theorem announces_step {w w' : Window.State} {e : Window.Event} (ha : Announces w)
    (h : Window.step w e = some w') : Announces w' := by
  rcases (Window.step_cases h).2 with ⟨c, _, _, hw'⟩ | ⟨c, d, q, _, _, _, hw'⟩ | ⟨c, d, _, _, _, hw'⟩ |
    ⟨N, q, _, hpc, _, hw'⟩ | ⟨_, hpc, hw'⟩ | ⟨_, hpc, hw'⟩
  · subst hw'
    exact ⟨ha.stored, ha.printed⟩
  · subst hw'
    refine ⟨ha.stored, fun hpc => ?_⟩
    simp only [announced, Window.afterSend, List.findSome?_cons, announcement_ofDelta]
    exact ha.printed hpc
  · subst hw'
    refine ⟨ha.stored, fun hpc => ?_⟩
    simp only [announced, List.findSome?_cons, announcement_ofDelta]
    exact ha.printed hpc
  · subst hw'
    have hprev := ha.printed (by rw [hpc]; decide)
    refine ⟨?_, fun _ => hprev⟩
    intro h
    cases h
  · subst hw'
    exact ⟨fun _ => rfl, fun h => absurd rfl h⟩
  · subst hw'
    refine ⟨?_, fun _ => .inl ?_⟩
    · intro h
      cases h
    · simp only [announced, List.findSome?_cons, Announcement, ha.stored hpc]

theorem announced_stored {es : List Event} {s : State} {n : Int} (h : exec step init es = some s)
    (hidle : Idle s.window) (hn : announced s.window = some n) : s.window.valor_ventana = n := by
  have ha : Announces s.window := window_inv (fun _ _ _ ha hs => announces_step ha hs) h announces_init
  obtain hsome | ⟨hnone, _⟩ := ha.printed (by rw [hidle.2]; decide)
  · rw [hn, Option.some.injEq] at hsome
    exact hsome.symm
  · rw [hn] at hnone
    cases hnone

/-! ## The next iteration -/

def IsTask : Event → Prop
  | .task _ => True
  | .window _ => False

instance (e : Event) : Decidable (IsTask e) := by
  cases e <;> unfold IsTask <;> infer_instance

/-- Whatever the tasks of the pipeline do from `s`: the first iteration that reads the
window after `s` sums exactly the last `m` samples and divides by `m`. -/
def NextAverages (s : State) (m : Nat) : Prop :=
  ∀ ts s', (∀ e ∈ ts, IsTask e) → exec step s ts = some s' →
    s'.pipe.reads.length = s.pipe.reads.length + 1 → s'.pipe.receiver.pc = .divide →
      s'.pipe.receiver.N = m ∧ s'.pipe.receiver.filter = windowSum sample s'.pipe.reads.length m

/-- A receiver that has read 0 goes on to divide by it, and reads nothing any more. -/
def ZeroStops (p : Pipeline.State) : Prop :=
  0 ∈ p.reads → p.receiver.pc = .fault ∨
    ((∃ i, p.receiver.pc = .sum i) ∨ p.receiver.pc = .divide) ∧ p.receiver.N = 0 ∧ p.reads.getLast? = some 0

theorem zeroStops_step {v : Int} {t : Task} {p p' : Pipeline.State} (hz : ZeroStops p)
    (h : Pipeline.step v p t = some p') : ZeroStops p' := by
  unfold ZeroStops at *
  cases t with
  | sensor => cases sensor_step h <;> exact hz
  | display => cases display_step h <;> exact hz
  | receiver =>
    cases receiver_step h with
    | start hpc => simp_all
    | receive value q hpc hq => simp_all
    | shift hpc => simp_all
    | read hpc =>
      intro h0
      have hv : v = 0 := by
        obtain h0 | h0 := List.mem_append.mp h0
        · have := hz h0
          simp_all
        · exact (List.mem_singleton.mp h0).symm
      subst hv
      exact .inr ⟨.inl ⟨0, rfl⟩, rfl, List.getLast?_concat⟩
    | add i hi hpc hlt =>
      intro h0
      obtain hf | ⟨_, hN, _⟩ := hz h0
      · rw [hpc] at hf
        cases hf
      · omega
    | summed i hpc hlt =>
      intro h0
      obtain hf | ⟨_, hN, hlast⟩ := hz h0
      · rw [hpc] at hf
        cases hf
      · exact .inr ⟨.inr rfl, hN, hlast⟩
    | outside i hpc hlt hi => exact fun _ => .inl rfl
    | divide hpc hN => simp_all
    | divideByZero hpc hN => exact fun _ => .inl rfl
    | send q hpc hroom hq => simp_all

theorem tasks_read {ts : List Event} (hts : ∀ e ∈ ts, IsTask e) {s s' : State} (h : exec step s ts = some s') :
    s'.window = s.window ∧
      ∃ k, s'.pipe.reads = s.pipe.reads ++ List.replicate k s.window.valor_ventana := by
  induction ts generalizing s with
  | nil =>
    rw [exec_nil, Option.some.injEq] at h
    subst h
    exact ⟨rfl, 0, by simp⟩
  | cons e ts ih =>
    obtain ⟨u, hu, hrest⟩ := exec_cons.mp h
    obtain ⟨hw, k, hk⟩ := ih (fun e he => hts e (List.mem_cons_of_mem _ he)) hrest
    have he := hts e List.mem_cons_self
    cases e with
    | window e => exact he.elim
    | task t =>
      obtain ⟨hp, hw'⟩ := step_task hu
      rw [hw'] at hw hk
      refine ⟨hw, ?_⟩
      have hread : u.pipe.reads = s.pipe.reads ∨ u.pipe.reads = s.pipe.reads ++ [s.window.valor_ventana] := by
        generalize u.pipe = p at hp
        cases t with
        | sensor => cases sensor_step hp <;> exact .inl rfl
        | display => cases display_step hp <;> exact .inl rfl
        | receiver => cases receiver_step hp <;> first | exact .inl rfl | exact .inr rfl
      obtain hsame | hread := hread
      · exact ⟨k, by rw [hk, hsame]⟩
      · exact ⟨k + 1, by rw [hk, hread, List.append_assoc, List.replicate_succ, List.singleton_append]⟩

theorem next_averages {es : List Event} {s : State} (h : exec step init es = some s)
    (hn : s.window.valor_ventana ≠ 0) : NextAverages s (window s.window.valor_ventana) := by
  intro ts s' hts hexec hlen hpc
  obtain ⟨_, k, hk⟩ := tasks_read hts hexec
  obtain ⟨fs, hfs⟩ := project_exec (exec_append.mpr ⟨s, h, hexec⟩)
  -- exactly one window has been read, and it is the global
  have hk1 : k = 1 := by
    rw [hk, List.length_append, List.length_replicate] at hlen
    omega
  subst hk1
  rw [List.replicate_one] at hk
  have hreads : 0 ∉ s'.pipe.reads := by
    intro h0
    have hz : ZeroStops s'.pipe := open_inv (fun _ _ _ _ hz hs => zeroStops_step hz hs) hfs
      (fun h0 => by cases h0)
    obtain hf | ⟨_, _, hlast⟩ := hz h0
    · rw [hpc] at hf
      cases hf
    · rw [hk, List.getLast?_concat, Option.some.injEq] at hlast
      exact hn hlast
  have hreceiver := (follows_exec hfs hreads).receiver
  change ReceiverAt s'.pipe.receiver s'.pipe.reads _ s'.pipe.receiver.pc at hreceiver
  rw [hpc] at hreceiver
  obtain ⟨rs, n, hrs, _, _, hN, hfilter, _⟩ := hreceiver
  have hlast : n = s.window.valor_ventana := by
    have := congrArg List.getLast? (hk.symm.trans hrs)
    rw [List.getLast?_concat, List.getLast?_concat, Option.some.injEq] at this
    exact this.symm
  rw [hlast] at hN hfilter
  exact ⟨hN, hfilter⟩

/-! ## One more command -/

def NoIsr : Event → Prop
  | .window (.isr _) => False
  | _ => True

theorem target_exec {us : List Event} (hus : ∀ e ∈ us, NoIsr e) {s v : State} (h : exec step s us = some v) :
    Window.target v.window = Window.target s.window := by
  induction us generalizing s with
  | nil =>
    rw [exec_nil, Option.some.injEq] at h
    rw [h]
  | cons e us ih =>
    obtain ⟨u, hu, hrest⟩ := exec_cons.mp h
    rw [ih (fun e he => hus e (List.mem_cons_of_mem _ he)) hrest]
    have he := hus e List.mem_cons_self
    cases e with
    | window e =>
      cases e with
      | isr c => exact he.elim
      | updater pc => exact Window.target_updater (step_window hu).1
    | task t => rw [(step_task hu).2]

/-- A command handled in a drained state, and stored: the global has moved by its `delta`. -/
theorem command_stored {s v : State} {c : UInt8} {d : Int} {us : List Event} (hd : Window.delta c = some d)
    (hdrained : Window.Drained s.window) (hus : ∀ e ∈ us, NoIsr e)
    (h : exec step s (.window (.isr c) :: us) = some v) (hv : Window.Drained v.window) :
    v.window.valor_ventana = int32 (s.window.valor_ventana + d) := by
  obtain ⟨u, hu, hrest⟩ := exec_cons.mp h
  obtain ⟨q, hsend, hu'⟩ | ⟨hfull, _⟩ := Window.step_command hd (step_window hu).1
  · calc v.window.valor_ventana
        = Window.target v.window := hv.target.symm
      _ = Window.target u.window := target_exec hus hrest
      _ = int32 (s.window.valor_ventana + d) := by rw [hu', Window.target_afterSend hsend]
  · rw [hdrained.1] at hfull
    simp [Window.queueLength] at hfull

theorem next_averages_command {es us : List Event} {s v : State} {c : UInt8} {n d : Int}
    (h : exec step init es = some s) (hn : s.window.valor_ventana = n) (hd : Window.delta c = some d)
    (hdrained : Window.Drained s.window) (hus : ∀ e ∈ us, NoIsr e)
    (hexec : exec step s (.window (.isr c) :: us) = some v) (hv : Window.Drained v.window)
    (hpos : 1 ≤ n + d) (hsmall : n + d ≤ MAX_VALUES_AVERAGE) : NextAverages v (window (n + d)) := by
  have hmax : n + d ≤ 10 := hsmall
  have hvalue : v.window.valor_ventana = n + d := by
    calc v.window.valor_ventana
        = int32 (s.window.valor_ventana + d) := command_stored hd hdrained hus hexec hv
      _ = int32 (n + d) := by rw [hn]
      _ = n + d := int32_small (by omega) (by omega)
  rw [← hvalue]
  exact next_averages (exec_append.mpr ⟨s, h, hexec⟩) (by omega)

/-- What holds once `n` has been announced in the state `s`. -/
structure InForce (s : State) (n : Int) : Prop where
  /-- The next iteration averages the window of `n`, -/
  next : NextAverages s (window n)
  /-- which is `n` itself up to `MAX_VALUES_AVERAGE` -/
  exact : n ≤ MAX_VALUES_AVERAGE → (window n : Int) = n
  /-- and `MAX_VALUES_AVERAGE` beyond. -/
  clamped : MAX_VALUES_AVERAGE ≤ n → window n = MAX_VALUES_AVERAGE
  /-- One more `'D'`, announced in `v`, shrinks it by one, -/
  shrinks : ∀ us v, (∀ e ∈ us, NoIsr e) → exec step s (.window (.isr Window.byteD) :: us) = some v →
    Idle v.window → 1 < n → n ≤ MAX_VALUES_AVERAGE → NextAverages v (window n - 1)
  /-- and one more `'U'` makes it grow by one. -/
  grows : ∀ us v, (∀ e ∈ us, NoIsr e) → exec step s (.window (.isr Window.byteU) :: us) = some v →
    Idle v.window → window n < MAX_VALUES_AVERAGE → NextAverages v (window n + 1)

/-- **The window announced, up to `MAX_VALUES_AVERAGE`, is the window in force.** In every
state where everything sent is stored and printed, and the number `n` last printed is
at least 1. -/
theorem announced_in_force {es : List Event} {s : State} {n : Int} (h : exec step init es = some s)
    (hidle : Idle s.window) (hn : announced s.window = some n) (hpos : 1 ≤ n) : InForce s n := by
  have hvalue := announced_stored h hidle hn
  have hwindow : window n = min n.toNat MAX_VALUES_AVERAGE := if_neg (by omega)
  refine ⟨?_, ?_, ?_, ?_, ?_⟩
  · rw [← hvalue]
    exact next_averages h (by omega)
  · intro hle
    rw [hwindow]
    omega
  · intro hle
    rw [hwindow]
    omega
  · intro us v hus hexec hv hgt hle
    have hone : window (n + -1) = window n - 1 := by
      rw [hwindow, window, if_neg (by omega)]
      omega
    rw [← hone]
    exact next_averages_command h hvalue (by decide) hidle.1 hus hexec hv.1 (by omega) (by omega)
  · intro us v hus hexec hv hlt
    have hone : window (n + 1) = window n + 1 := by
      rw [hwindow, window, if_neg (by omega)]
      omega
    rw [← hone]
    exact next_averages_command h hvalue (by decide) hidle.1 hus hexec hv.1 (by omega) (by omega)

def pressed : List Event :=
  [.window (.isr Window.byteU), .window (.updater .receive), .window (.updater .store), .window (.updater .print)]

theorem announced_in_force_two : InForce ((exec step init pressed).getD init) 2 := by
  have hrun : exec step init pressed = some ((exec step init pressed).getD init) := rfl
  exact announced_in_force hrun (by decide) (by decide) (by decide)

def Waits (s : State) : Event → Prop
  | .window (.isr _) => Window.Drained s.window
  | _ => True

instance (s : State) (e : Event) : Decidable (Waits s e) := by
  unfold Waits
  split <;> infer_instance

def pressedTen : List Event := (List.replicate 10 pressed).flatten

/-- One iteration of the receiver, to its division. -/
def iteration : List Event := [.task .sensor, .task .sensor] ++ List.replicate 15 (.task .receiver)

/-- After ten `'U'`s 11 is printed, and the next iteration averages ten samples. -/
theorem announced_not_in_force :
    ¬ ∀ es s n, exec step init es = some s → AllSteps step Waits init es → Idle s.window →
      announced s.window = some n → 1 ≤ n → NextAverages s n.toNat := by
  intro h
  have hnext := h pressedTen ((exec step init pressedTen).getD init) 11 rfl (by decide) (by decide) (by decide)
    (by decide)
  have hiter := hnext iteration ((exec step init (pressedTen ++ iteration)).getD init)
    (by decide) rfl (by decide) (by decide)
  exact absurd hiter.1 (by decide)

end WindowFilter.System
