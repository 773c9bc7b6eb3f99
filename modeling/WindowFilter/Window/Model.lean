import WindowFilter.Lib.Steps
import WindowFilter.Lib.Fifo
import WindowFilter.CInt
import Mathlib.Data.List.Induction

/- The window command path: `vUART_ISR` computes the new window from the global
   `valor_ventana` and sends it to `xUpdateNQueue`; `vTaskUpdateN` receives it,
   stores it and prints it. An interrupt runs to completion before any task moves
   again, so one ISR run is one step; the task moves in three (receive, store,
   print), and an interrupt may fall between any two.

   With no room in the queue, `xQueueSend(.., portMAX_DELAY)` waits for space. In
   the handler that wait never ends (only a task could make room, and none runs
   before the handler returns): `isrWaiting`, after which no step is enabled.

   `handled` and `uart` are histories: the bytes the handler has seen, oldest
   first, and the messages sent to UART0, newest first. -/
namespace WindowFilter.Window
open Steps

/-- The length main gives each of the three queues. -/
def queueLength : Nat := 50

/-- `'U'` -/
def byteU : UInt8 := 85

/-- `'D'` -/
def byteD : UInt8 := 68

/-- What the handler and `vTaskUpdateN` print. -/
inductive Message where
  /-- `[INFO] | UART_ISR | N incremented` -/
  | incremented
  /-- `[INFO] | UART_ISR | N decremented` -/
  | decremented
  /-- `[INFO] | TaskUpdateN | N: ` and the number -/
  | updated (N : Int)
  deriving DecidableEq, Repr

/-- The next statement of `vTaskUpdateN`'s loop. -/
inductive UpdaterPc where
  | receive
  | store
  | print
  deriving DecidableEq, Repr

/-- The state of the command path. -/
structure State where
  valor_ventana : Int
  xUpdateNQueue : Fifo Int queueLength
  pc : UpdaterPc
  N : Int
  isrWaiting : Bool
  handled : List UInt8
  uart : List Message
  deriving DecidableEq, Repr

/-- After start-up: the initialiser of `valor_ventana`, an empty queue. -/
def init : State where
  valor_ventana := 1
  xUpdateNQueue := Fifo.empty
  pc := .receive
  N := 0
  isrWaiting := false
  handled := []
  uart := []

def get_N_value (w : State) : Int := w.valor_ventana

def sendUART (m : Message) (w : State) : State := { w with uart := m :: w.uart }

/-- `xQueueSend(xUpdateNQueue, &nuevo_N, portMAX_DELAY)` in the handler. -/
def xQueueSend (nuevo_N : Int) (w : State) : State :=
  match w.xUpdateNQueue.send nuevo_N with
  | some q => { w with xUpdateNQueue := q }
  -- the wait for space, from which the handler does not come back
  | none => { w with isrWaiting := true }

/-- `vUART_ISR` on the received byte `c`. -/
def vUART_ISR (c : UInt8) (w : State) : State :=
  if c = byteU then
    let nuevo_N := int32 (get_N_value w + 1)
    xQueueSend nuevo_N (sendUART .incremented w)
  else if c = byteD then
    -- here the message comes before the number, in the branch above after it
    let w := sendUART .decremented w
    let nuevo_N := int32 (get_N_value w - 1)
    xQueueSend nuevo_N w
  else w

/-- One statement of `vTaskUpdateN`; `none` while it waits for an item. -/
def vTaskUpdateN (w : State) : Option State :=
  match w.pc with
  | .receive =>
    match w.xUpdateNQueue.receive with
    | some (N, q) => some { w with N := N, xUpdateNQueue := q, pc := .store }
    | none => none
  | .store => some { w with valor_ventana := w.N, pc := .print }
  | .print => some { sendUART (.updated w.N) w with pc := .receive }

/-- A run of the handler on a byte, or a statement of the updater. -/
inductive Event where
  | isr (c : UInt8)
  | updater (pc : UpdaterPc)
  deriving DecidableEq, Repr

def step (w : State) (e : Event) : Option State :=
  if w.isrWaiting then none
  else match e with
    | .isr c => some { vUART_ISR c w with handled := w.handled ++ [c] }
    | .updater pc => if w.pc = pc then vTaskUpdateN w else none

/-! ## Commands -/

/-- What a command byte adds to the window; `none` for the bytes the handler drops. -/
def delta (c : UInt8) : Option Int :=
  if c = byteU then some 1 else if c = byteD then some (-1) else none

/-- The commands among the bytes. -/
def commands (bytes : List UInt8) : Nat := bytes.countP (fun c => (delta c).isSome)

/-- The window the user has asked for: 1, plus the `'U'`s, minus the `'D'`s. -/
def commanded (bytes : List UInt8) : Int := 1 + (bytes.count byteU : Int) - (bytes.count byteD : Int)

/-- What the handler prints for a command that adds `d`. -/
def Message.ofDelta (d : Int) : Message := if d = 1 then .incremented else .decremented

theorem delta_eq_some {c : UInt8} {d : Int} :
    delta c = some d ↔ (c = byteU ∧ d = 1) ∨ (c = byteD ∧ d = -1) := by
  unfold delta
  by_cases hU : c = byteU
  · subst hU
    simp [show byteU ≠ byteD by decide, eq_comm]
  · by_cases hD : c = byteD
    · subst hD
      simp [show byteD ≠ byteU by decide, eq_comm]
    · simp [hU, hD]

/-- The two branches of the handler are one: a command sends the global plus `delta`. -/
theorem vUART_ISR_eq (c : UInt8) (w : State) :
    vUART_ISR c w = match delta c with
      | some d => xQueueSend (int32 (w.valor_ventana + d)) (sendUART (Message.ofDelta d) w)
      | none => w := by
  unfold vUART_ISR delta
  by_cases hU : c = byteU
  · simp [hU, get_N_value, Message.ofDelta]
  · by_cases hD : c = byteD
    · subst hD
      simp [show byteD ≠ byteU by decide, get_N_value, sendUART, Message.ofDelta, Int.sub_eq_add_neg]
    · simp [hU, hD]

theorem commands_snoc (bs : List UInt8) (c : UInt8) :
    commands (bs ++ [c]) = commands bs + if (delta c).isSome then 1 else 0 := by
  simp only [commands, List.countP_append, List.countP_cons, List.countP_nil, Nat.zero_add]

theorem commanded_snoc (bs : List UInt8) (c : UInt8) :
    commanded (bs ++ [c]) = commanded bs + (delta c).getD 0 := by
  simp only [commanded, List.count_append, List.count_singleton]
  by_cases hU : c = byteU
  · subst hU
    simp [delta, show byteU ≠ byteD by decide]
    omega
  · by_cases hD : c = byteD
    · subst hD
      simp [delta, show byteD ≠ byteU by decide]
      omega
    · simp [delta, hU, hD]

theorem commands_bounds (bs : List UInt8) :
    1 - (commands bs : Int) ≤ commanded bs ∧ commanded bs ≤ 1 + (commands bs : Int) := by
  induction bs using List.reverseRecOn with
  | nil => simp [commands, commanded]
  | append_singleton bs c ih =>
    rw [commands_snoc, commanded_snoc]
    cases hd : delta c with
    | none => simpa using ih
    | some d =>
      have := delta_eq_some.mp hd
      simp only [Option.isSome_some, if_true, Option.getD_some]
      push_cast
      omega

/-! ## What one step can do -/

/-- The state after the command `c`, which adds `d`, has been sent. -/
def afterSend (w : State) (c : UInt8) (d : Int) (q : Fifo Int queueLength) : State :=
  { w with xUpdateNQueue := q, uart := Message.ofDelta d :: w.uart, handled := w.handled ++ [c] }

/-- Every step, by what it is. -/
theorem step_cases {w w' : State} {e : Event} (h : step w e = some w') :
    w.isrWaiting = false ∧
    ((∃ c, e = .isr c ∧ delta c = none ∧ w' = { w with handled := w.handled ++ [c] }) ∨
     (∃ c d q, e = .isr c ∧ delta c = some d ∧
       w.xUpdateNQueue.send (int32 (w.valor_ventana + d)) = some q ∧ w' = afterSend w c d q) ∨
     (∃ c d, e = .isr c ∧ delta c = some d ∧ w.xUpdateNQueue.items.length = queueLength ∧
       w' = { w with isrWaiting := true, uart := Message.ofDelta d :: w.uart, handled := w.handled ++ [c] }) ∨
     (∃ N q, e = .updater .receive ∧ w.pc = .receive ∧ w.xUpdateNQueue.items = N :: q.items ∧
       w' = { w with N := N, xUpdateNQueue := q, pc := .store }) ∨
     (e = .updater .store ∧ w.pc = .store ∧ w' = { w with valor_ventana := w.N, pc := .print }) ∨
     (e = .updater .print ∧ w.pc = .print ∧
       w' = { w with uart := .updated w.N :: w.uart, pc := .receive })) := by
  unfold step at h
  by_cases hw : w.isrWaiting = true
  · simp [hw] at h
  · refine ⟨Bool.eq_false_iff.mpr hw, ?_⟩
    simp only [if_neg hw] at h
    cases e with
    | isr c =>
      simp only [Option.some.injEq, vUART_ISR_eq] at h
      cases hd : delta c with
      | none =>
        simp only [hd] at h
        exact .inl ⟨c, rfl, hd, h.symm⟩
      | some d =>
        simp only [hd, xQueueSend, sendUART] at h
        cases hs : w.xUpdateNQueue.send (int32 (w.valor_ventana + d)) with
        | some q =>
          simp only [hs] at h
          exact .inr (.inl ⟨c, d, q, rfl, hd, hs, h.symm⟩)
        | none =>
          simp only [hs] at h
          exact .inr (.inr (.inl ⟨c, d, rfl, hd, Fifo.send_eq_none.mp hs, h.symm⟩))
    | updater pc =>
      simp only at h
      split at h
      · next hpc =>
        subst hpc
        unfold vTaskUpdateN at h
        cases hpc : w.pc with
        | receive =>
          simp only [hpc] at h
          cases hr : w.xUpdateNQueue.receive with
          | none => simp [hr] at h
          | some Nq =>
            simp only [hr, Option.some.injEq] at h
            exact .inr (.inr (.inr (.inl ⟨Nq.1, Nq.2, rfl, rfl, Fifo.receive_eq_some.mp hr, h.symm⟩)))
        | store =>
          simp only [hpc, Option.some.injEq] at h
          exact .inr (.inr (.inr (.inr (.inl ⟨rfl, rfl, h.symm⟩))))
        | print =>
          simp only [hpc, Option.some.injEq] at h
          exact .inr (.inr (.inr (.inr (.inr ⟨rfl, rfl, h.symm⟩))))
      · simp at h

theorem step_updater {w : State} {pc : UpdaterPc} (hw : w.isrWaiting = false) (hpc : w.pc = pc) :
    step w (.updater pc) = vTaskUpdateN w := by
  rw [step, if_neg (Bool.eq_false_iff.mp hw)]
  exact if_pos hpc

/-- A command is sent, or finds the queue full. -/
theorem step_command {w w' : State} {c : UInt8} {d : Int} (hd : delta c = some d)
    (h : step w (.isr c) = some w') :
    (∃ q, w.xUpdateNQueue.send (int32 (w.valor_ventana + d)) = some q ∧
      w' = afterSend w c d q) ∨
    (w.xUpdateNQueue.items.length = queueLength ∧
      w' = { w with isrWaiting := true, uart := Message.ofDelta d :: w.uart, handled := w.handled ++ [c] }) := by
  rcases (step_cases h).2 with ⟨c', hc, hn, _⟩ | ⟨c', d', q, hc, hd', hsend, hw⟩ | ⟨c', d', hc, hd', hfull, hw⟩ |
    ⟨_, _, hc, _⟩ | ⟨hc, _⟩ | ⟨hc, _⟩
  · cases hc
    rw [hn] at hd
    cases hd
  · cases hc
    obtain rfl : d = d' := Option.some.inj (hd ▸ hd')
    exact .inl ⟨q, hsend, hw⟩
  · cases hc
    obtain rfl : d = d' := Option.some.inj (hd ▸ hd')
    exact .inr ⟨hfull, hw⟩
  · cases hc
  · cases hc
  · cases hc

/-- The handler only ever adds to the bytes it has handled. -/
theorem exec_handled {w w' : State} {es : List Event} (h : exec step w es = some w') :
    w.handled <+: w'.handled := by
  refine exec_inv (I := fun v => w.handled <+: v.handled) ?_ h (List.prefix_refl _)
  intro s a s' hs hstep
  rcases (step_cases hstep).2 with ⟨c, _, _, rfl⟩ | ⟨c, d, q, _, _, _, rfl⟩ | ⟨c, d, _, _, _, rfl⟩ |
    ⟨N, q, _, _, _, rfl⟩ | ⟨_, _, rfl⟩ | ⟨_, _, rfl⟩
  · exact hs.trans (List.prefix_append _ _)
  · exact hs.trans (List.prefix_append _ _)
  · exact hs.trans (List.prefix_append _ _)
  · exact hs
  · exact hs
  · exact hs

theorem exec_commands_le {w w' : State} {es : List Event} (h : exec step w es = some w') :
    commands w.handled ≤ commands w'.handled :=
  List.Sublist.countP_le (exec_handled h).sublist

/-! ## Draining -/

/-- The numbers sent and not yet stored, oldest first. -/
def pending (w : State) : List Int := (if w.pc = .store then [w.N] else []) ++ w.xUpdateNQueue.items

/-- A send puts the new window behind what was pending. -/
theorem pending_afterSend {w : State} {c : UInt8} {d : Int} {q : Fifo Int queueLength}
    (h : w.xUpdateNQueue.send (int32 (w.valor_ventana + d)) = some q) :
    pending (afterSend w c d q) = pending w ++ [int32 (w.valor_ventana + d)] := by
  show (if w.pc = .store then [w.N] else []) ++ q.items = _
  rw [(Fifo.send_eq_some.mp h).2, pending, List.append_assoc]

/-- The window once everything pending is stored. -/
def target (w : State) : Int := (pending w).getLast?.getD w.valor_ventana

/-- The updater works towards the target. -/
theorem target_updater {w w' : State} {pc : UpdaterPc} (h : step w (.updater pc) = some w') :
    target w' = target w := by
  rcases (step_cases h).2 with ⟨c, hc, _⟩ | ⟨c, d, q, hc, _⟩ | ⟨c, d, hc, _⟩ | ⟨N, q, _, hpc, hq, hw'⟩ |
    ⟨_, hpc, hw'⟩ | ⟨_, hpc, hw'⟩
  · cases hc
  · cases hc
  · cases hc
  · subst hw'
    simp only [target, pending, hpc, hq]
    rfl
  · subst hw'
    simp only [target, pending, hpc, if_true, List.singleton_append, List.getLast?_cons, Option.getD_some]
    rfl
  · subst hw'
    simp only [target, pending, hpc]
    rfl

/-- A command that finds room sets the target from the window in force. -/
theorem target_afterSend {w : State} {c : UInt8} {d : Int} {q : Fifo Int queueLength}
    (h : w.xUpdateNQueue.send (int32 (w.valor_ventana + d)) = some q) :
    target (afterSend w c d q) = int32 (w.valor_ventana + d) := by
  rw [target, pending_afterSend h, List.getLast?_concat]
  rfl

/-- The queue is empty and the last item received is stored. -/
def Drained (w : State) : Prop := w.xUpdateNQueue.items = [] ∧ w.pc ≠ .store

instance (w : State) : Decidable (Drained w) := inferInstanceAs (Decidable (_ ∧ _))

theorem drained_iff (w : State) : Drained w ↔ pending w = [] := by
  unfold Drained pending
  by_cases h : w.pc = .store <;> simp [h]

theorem Drained.target {w : State} (h : Drained w) : target w = w.valor_ventana := by
  rw [Window.target, (drained_iff w).mp h]
  rfl

/-- An event of the updater. -/
def IsUpdater : Event → Prop
  | .isr _ => False
  | .updater _ => True

/-- Whatever the updater is doing, it comes round to the receive and takes the next item. -/
theorem next_item {w : State} {N : Int} {rest : List Int} (hw : w.isrWaiting = false)
    (hitems : w.xUpdateNQueue.items = N :: rest) :
    ∃ us v, (∀ e ∈ us, IsUpdater e) ∧ exec step w us = some v ∧ v.pc = .store ∧
      v.xUpdateNQueue.items = rest ∧ v.N = N ∧ v.handled = w.handled ∧ v.isrWaiting = false := by
  have hlen : rest.length ≤ queueLength := by
    have := w.xUpdateNQueue.bounded
    rw [hitems, List.length_cons] at this
    omega
  have hrecv : w.xUpdateNQueue.receive = some (N, ⟨rest, hlen⟩) := Fifo.receive_eq_some.mpr hitems
  cases hpc : w.pc with
  | receive =>
    refine ⟨[.updater .receive], { w with N := N, xUpdateNQueue := ⟨rest, hlen⟩, pc := .store }, ?_, ?_,
      rfl, rfl, rfl, rfl, hw⟩
    · intro e he
      rw [List.mem_singleton.mp he]
      trivial
    · simp [exec, step, hw, hpc, vTaskUpdateN, hrecv]
  | store =>
    refine ⟨[.updater .store, .updater .print, .updater .receive],
      { w with valor_ventana := w.N, N := N, xUpdateNQueue := ⟨rest, hlen⟩, pc := .store,
               uart := .updated w.N :: w.uart }, ?_, ?_, rfl, rfl, rfl, rfl, hw⟩
    · intro e he
      simp only [List.mem_cons, List.not_mem_nil, or_false] at he
      rcases he with rfl | rfl | rfl <;> trivial
    · simp [exec, step, hw, hpc, vTaskUpdateN, hrecv, sendUART]
  | print =>
    refine ⟨[.updater .print, .updater .receive],
      { w with N := N, xUpdateNQueue := ⟨rest, hlen⟩, pc := .store, uart := .updated w.N :: w.uart },
      ?_, ?_, rfl, rfl, rfl, rfl, hw⟩
    · intro e he
      simp only [List.mem_cons, List.not_mem_nil, or_false] at he
      rcases he with rfl | rfl <;> trivial
    · simp [exec, step, hw, hpc, vTaskUpdateN, hrecv, sendUART]

/-- Left alone, the updater stores everything that was sent to it, the last one last. -/
theorem drain (w : State) (hw : w.isrWaiting = false) :
    ∃ us v, (∀ e ∈ us, IsUpdater e) ∧ exec step w us = some v ∧ Drained v ∧
      v.valor_ventana = (pending w).getLast?.getD w.valor_ventana ∧ v.handled = w.handled := by
  -- by induction on the items in the queue: each is received, then stored
  obtain ⟨items, hitems⟩ : ∃ items, w.xUpdateNQueue.items = items := ⟨_, rfl⟩
  induction items generalizing w with
  | nil =>
    by_cases hpc : w.pc = .store
    · refine ⟨[.updater .store], { w with valor_ventana := w.N, pc := .print }, ?_, ?_, ?_, ?_, rfl⟩
      · intro e he
        rw [List.mem_singleton.mp he]
        trivial
      · simp [exec, step, hw, hpc, vTaskUpdateN]
      · exact ⟨hitems, by simp⟩
      · simp [pending, hpc, hitems]
    · exact ⟨[], w, by simp, rfl, ⟨hitems, hpc⟩, by simp [pending, hpc, hitems], rfl⟩
  | cons N rest ih =>
    obtain ⟨us, v, hus, hexec, hpc, hq, hval, hhand, hwait⟩ := next_item hw hitems
    obtain ⟨us', v', hus', hexec', hdr, hval', hhand'⟩ := ih v hwait hq
    refine ⟨us ++ us', v', ?_, exec_append.mpr ⟨v, hexec, hexec'⟩, hdr, ?_, hhand'.trans hhand⟩
    · intro e he
      obtain h | h := List.mem_append.mp he
      · exact hus e h
      · exact hus' e h
    · have hv : pending v = N :: rest := by simp [pending, hpc, hq, hval]
      have hw : (pending w).getLast? = (N :: rest).getLast? := by
        rw [pending, hitems, List.getLast?_append, List.getLast?_cons]
        rfl
      rw [hval', hv, hw, List.getLast?_cons]
      rfl

end WindowFilter.Window
