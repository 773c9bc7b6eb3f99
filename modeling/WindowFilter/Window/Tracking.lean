import WindowFilter.Window.Model

/- Does `valor_ventana` follow the commands? The handler adds to the global, not to
   the last number it sent, so a command that arrives while another is on its way
   is computed from the old window and the one before it is lost.

   * `tracks_step`, `tracks_exec`: while every command finds the path drained
     (`Settled`), at most one number is on its way and it is the commanded window.
   * `settled_iff_tracked`: and only then. A run is settled exactly when the
     drained window is the commanded one in every state of the run and in every
     state the updater reaches from one of them. -/
namespace WindowFilter.Window
open Steps

/-- A command byte is handled with nothing on its way: the queue is empty and the
last item received is stored. -/
def Settled (w : State) : Event → Prop
  | .isr c => (delta c).isSome → Drained w
  | .updater _ => True

instance (w : State) (e : Event) : Decidable (Settled w e) := by
  cases e <;> unfold Settled <;> infer_instance

/-- The window in force, and what is on its way to replace it, follow the commands. -/
structure Tracks (w : State) : Prop where
  running : w.isrWaiting = false
  last : (pending w).getLast?.getD w.valor_ventana = commanded w.handled
  near : ∀ p ∈ pending w, p = w.valor_ventana + 1 ∨ p = w.valor_ventana - 1
  short : (pending w).length ≤ 1

theorem tracks_init : Tracks init := by
  refine ⟨rfl, rfl, ?_, Nat.zero_le _⟩
  intro p hp
  simp [pending, init] at hp

/-- With few enough commands the handler's `int` arithmetic does not overflow. -/
theorem int32_command {bs : List UInt8} {c : UInt8} {d : Int} (hd : delta c = some d)
    (hb : (commands (bs ++ [c]) : Int) < INT_MAX) :
    int32 (commanded bs + d) = commanded (bs ++ [c]) := by
  have h := commands_bounds (bs ++ [c])
  have hc : commanded (bs ++ [c]) = commanded bs + d := by rw [commanded_snoc, hd]; rfl
  rw [← hc]
  apply int32_eq
  rw [inInt_iff]
  rw [INT_MAX] at hb
  omega

/-- A step that finds nothing on its way, or is no command, keeps the window on track. -/
theorem tracks_step {w w' : State} {e : Event} (ht : Tracks w) (hs : Settled w e)
    (hstep : step w e = some w') (hb : (commands w'.handled : Int) < INT_MAX) : Tracks w' := by
  obtain ⟨hrun, hlast, hnear, hshort⟩ := ht
  rcases (step_cases hstep).2 with ⟨c, rfl, hd, rfl⟩ | ⟨c, d, q, rfl, hd, hsend, rfl⟩ |
    ⟨c, d, rfl, hd, hfull, rfl⟩ | ⟨N, q, rfl, hpc, hq, rfl⟩ | ⟨rfl, hpc, rfl⟩ | ⟨rfl, hpc, rfl⟩
  · -- a byte that is no command
    have hsame : commanded (w.handled ++ [c]) = commanded w.handled := by
      rw [commanded_snoc, hd, Option.getD_none, Int.add_zero]
    exact ⟨hrun, hlast.trans hsame.symm, hnear, hshort⟩
  · -- a command: the path is drained, so the global is the commanded window
    have hdr : Drained w := hs (by rw [hd]; rfl)
    have hnil := (drained_iff w).mp hdr
    rw [hnil] at hlast
    have hval : w.valor_ventana = commanded w.handled := hlast
    have hone : commanded (w.handled ++ [c]) = w.valor_ventana + 1 ∨
        commanded (w.handled ++ [c]) = w.valor_ventana - 1 := by
      have := delta_eq_some.mp hd
      rw [commanded_snoc, hd, Option.getD_some, hval]
      omega
    have hpend : pending (afterSend w c d q) = [commanded (w.handled ++ [c])] := by
      rw [pending_afterSend hsend, hnil, hval, int32_command hd hb, List.nil_append]
    refine ⟨hrun, ?_, ?_, ?_⟩
    · rw [hpend]; rfl
    · rw [hpend]
      intro p hp
      rw [List.mem_singleton.mp hp]
      exact hone
    · rw [hpend]; simp
  · -- a full queue is not drained
    have hdr : Drained w := hs (by rw [hd]; rfl)
    rw [hdr.1] at hfull
    simp [queueLength] at hfull
  · -- receive: the same numbers are on their way
    have hpend : pending w = N :: q.items := by simp [pending, hpc, hq]
    rw [hpend] at hlast hnear hshort
    exact ⟨hrun, hlast, hnear, hshort⟩
  · -- store: the only number on its way becomes the window in force
    have hpend : pending w = w.N :: w.xUpdateNQueue.items := by simp [pending, hpc]
    rw [hpend, List.length_cons] at hshort
    have hq : w.xUpdateNQueue.items = [] := List.eq_nil_of_length_eq_zero (by omega)
    rw [hpend, hq] at hlast
    refine ⟨hrun, ?_, ?_, ?_⟩ <;> simp [pending, hq]
    exact hlast
  · -- print
    have hpend : pending w = w.xUpdateNQueue.items := by simp [pending, hpc]
    rw [hpend] at hlast hnear hshort
    exact ⟨hrun, hlast, hnear, hshort⟩

theorem tracks_exec {es : List Event} {w w' : State} (ht : Tracks w) (h : exec step w es = some w')
    (hs : AllSteps step Settled w es) (hb : (commands w'.handled : Int) < INT_MAX) : Tracks w' := by
  induction es generalizing w with
  | nil => exact Option.some.inj h ▸ ht
  | cons e es ih =>
    obtain ⟨v, hv, hrest⟩ := exec_cons.mp h
    have := exec_commands_le hrest
    exact ih (tracks_step ht hs.1 hv (by omega)) hrest (hs.2 v hv)

/-- The updater is no command. -/
theorem settled_updater {us : List Event} (hus : ∀ e ∈ us, IsUpdater e) (w : State) :
    AllSteps step Settled w us := by
  refine allSteps_of_forall ?_ w
  intro e he v
  have hu := hus e he
  cases e with
  | isr c => exact hu.elim
  | updater pc => trivial

theorem updater_handled {us : List Event} (hus : ∀ e ∈ us, IsUpdater e) {w v : State}
    (h : exec step w us = some v) : v.handled = w.handled := by
  induction us generalizing w with
  | nil => exact congrArg State.handled (Option.some.inj h).symm
  | cons u us ih =>
    obtain ⟨w', hw', hrest⟩ := exec_cons.mp h
    rw [ih (fun e he => hus e (List.mem_cons_of_mem u he)) hrest]
    have hu := hus u List.mem_cons_self
    rcases (step_cases hw').2 with ⟨c, rfl, _⟩ | ⟨c, d, q, rfl, _⟩ | ⟨c, d, rfl, _⟩ |
      ⟨N, q, _, _, _, rfl⟩ | ⟨_, _, rfl⟩ | ⟨_, _, rfl⟩
    · exact hu.elim
    · exact hu.elim
    · exact hu.elim
    · rfl
    · rfl
    · rfl

/-- A command handled while another is on its way is computed from the old window:
once the updater is through, the global is not the commanded window. -/
theorem unsettled_diverges {w w' : State} {c : UInt8} (ht : Tracks w) (hc : (delta c).isSome)
    (hnd : ¬ Drained w) (hstep : step w (.isr c) = some w')
    (hb : (commands w'.handled : Int) < INT_MAX) :
    ∃ us v, (∀ e ∈ us, IsUpdater e) ∧ exec step w' us = some v ∧ Drained v ∧
      v.valor_ventana ≠ commanded v.handled := by
  obtain ⟨d, hd⟩ := Option.isSome_iff_exists.mp hc
  -- exactly one number is on its way, and it is the commanded window
  obtain ⟨p, hp⟩ : ∃ p, pending w = [p] := by
    have hne : pending w ≠ [] := fun h => hnd ((drained_iff w).mpr h)
    have hs := ht.short
    cases hq : pending w with
    | nil => exact absurd hq hne
    | cons p rest =>
      rw [hq, List.length_cons] at hs
      exact ⟨p, by rw [List.eq_nil_of_length_eq_zero (by omega : rest.length = 0)]⟩
  have hlast := ht.last
  rw [hp] at hlast
  have hpc : p = commanded w.handled := hlast
  have hone : p = w.valor_ventana + 1 ∨ p = w.valor_ventana - 1 := ht.near p (by rw [hp]; simp)
  have hroom : w.xUpdateNQueue.items.length ≤ 1 := by
    have := congrArg List.length hp
    rw [pending, List.length_append, List.length_singleton] at this
    omega
  rcases step_command hd hstep with ⟨q, hsend, rfl⟩ | ⟨hfull, _⟩
  · obtain ⟨us, v, hus, hexec, hdr, hval, hhand⟩ := drain (afterSend w c d q) ht.running
    refine ⟨us, v, hus, hexec, hdr, ?_⟩
    rw [pending_afterSend hsend, List.getLast?_append] at hval
    have hval : v.valor_ventana = int32 (w.valor_ventana + d) := hval
    have hhand : v.handled = w.handled ++ [c] := hhand
    -- the number sent is as far from the commanded window as the old global was
    rw [hval, hhand, ← int32_command hd hb, ← hpc]
    unfold int32
    omega
  · simp only [queueLength] at hfull
    omega

/-- **The window tracks the commands exactly on settled runs.** In every run, with
fewer than 2^31 - 1 commands: every command was handled with nothing on its way if and
only if the drained window is the commanded one in every state of the run and in every
state the updater reaches from one of them. -/
theorem settled_iff_tracked {es : List Event} {w : State} (h : exec step init es = some w)
    (hb : (commands w.handled : Int) < INT_MAX) :
    AllSteps step Settled init es ↔
      ∀ bs us v, bs <+: es → (∀ e ∈ us, IsUpdater e) → exec step init (bs ++ us) = some v →
        Drained v → v.valor_ventana = commanded v.handled := by
  refine ⟨?_, ?_⟩
  · rintro hs bs us v ⟨cs, rfl⟩ hus hexec hdr
    obtain ⟨u, hu, hcs⟩ := exec_append.mp h
    have hdrain := (exec_append_of hu).mp hexec
    have hle := exec_commands_le hcs
    have hhand := updater_handled hus hdrain
    have ht := tracks_exec tracks_init hu ((allSteps_append hu).mp hs).1 (by omega)
    have ht' := tracks_exec ht hdrain (settled_updater hus u) (by rw [hhand]; omega)
    have hlast := ht'.last
    rw [(drained_iff v).mp hdr] at hlast
    exact hlast
  · intro htracked
    by_contra hns
    -- up to the first unsettled command the window is on track; that one leaves it
    obtain ⟨bs, e, cs, u, u', rfl, hu, hbs, he, hstep, hcs⟩ := exec_breaks h hns
    have hle := exec_commands_le hcs
    have hle' := exec_commands_le (exec_cons.mpr ⟨u', hstep, rfl⟩ : exec step u [e] = some u')
    have ht := tracks_exec tracks_init hu hbs (by omega)
    cases e with
    | updater pc => exact he trivial
    | isr c =>
      simp only [Settled, Classical.not_imp] at he
      obtain ⟨us, v, hus, hexec, hdr, hne⟩ := unsettled_diverges ht he.1 he.2 hstep (by omega)
      refine hne (htracked (bs ++ [.isr c]) us v ?_ hus ?_ hdr)
      · exact ⟨cs, by simp⟩
      · exact exec_append.mpr ⟨u', exec_snoc.mpr ⟨u, hu, hstep⟩, hexec⟩

/-- Two `'U'`s and a `'D'`, each after the window before it has been stored. -/
def keptCommands : List Event :=
  [.isr byteU, .updater .receive, .updater .store, .isr byteU, .updater .print, .updater .receive, .updater .store,
   .updater .print, .isr byteD, .updater .receive, .updater .store]

theorem settled_iff_tracked_kept :
    AllSteps step Settled init keptCommands ↔
      ∀ bs us v, bs <+: keptCommands → (∀ e ∈ us, IsUpdater e) → exec step init (bs ++ us) = some v →
        Drained v → v.valor_ventana = commanded v.handled := by
  have hrun : exec step init keptCommands = some ⟨2, Fifo.empty, .print, 2, false, [byteU, byteU, byteD],
      [.decremented, .updated 3, .updated 2, .incremented, .incremented]⟩ := by decide
  exact settled_iff_tracked hrun (by decide)

/-- Two `'U'`s before the updater has stored the first: both send 2. -/
def lostCommand : List Event :=
  [.isr byteU, .isr byteU, .updater .receive, .updater .store, .updater .print, .updater .receive,
   .updater .store]

/-- The second `'U'` of `lostCommand` is lost: the drained window is 2, not 3. -/
theorem command_lost :
    ¬ ∀ es w, exec step init es = some w → (commands w.handled : Int) < INT_MAX → Drained w →
      w.valor_ventana = commanded w.handled := by
  intro h
  have hrun : exec step init lostCommand = some ⟨2, Fifo.empty, .print, 2, false, [byteU, byteU],
      [.updated 2, .incremented, .incremented]⟩ := by decide
  exact absurd (h lostCommand _ hrun (by decide) (by decide)) (by decide)

end WindowFilter.Window
