import WindowFilter.Window.Model

/- The receive side of UART0 and its handler. `prvSetupHardware` leaves the FIFOs on
   (`setup_enables_fifo`): 16 bytes deep, and the receive interrupt is raised by the
   byte that takes the level from 0 to 1, the trigger level. `vUART_ISR` clears the
   interrupt first and then reads one byte. A byte may arrive between any two of its
   steps; one that would overflow the FIFO is not a step of the model.

   A byte that arrives on a FIFO that is not empty raises nothing, so nobody comes for
   it: from then on there is always one byte more in the FIFO than there are reads to
   come (`strands_step`), and the handler comes to rest with an empty FIFO exactly when
   every byte arrived on an empty one (`examined_iff_arrived_alone`). Otherwise it never
   runs again (`stranded_stays`). -/
namespace WindowFilter.Rx
open Steps

/-! ## The set-up -/

def UART_LCR_H_FEN : BitVec 32 := 0x10
def mainFIFO_SET : BitVec 32 := 0x10

/-- The line control register after `HWREG(UART0_BASE + UART_O_LCR_H) |= mainFIFO_SET`. -/
def prvSetupHardware (lcrh : BitVec 32) : BitVec 32 := lcrh ||| mainFIFO_SET

/-- The depth of the FIFOs: one character while they are disabled. -/
def fifoDepth (lcrh : BitVec 32) : Nat := if lcrh &&& UART_LCR_H_FEN = 0 then 1 else 16

/-- Whatever the register held, the set-up that means to do without the FIFO turns it on. -/
theorem setup_enables_fifo (lcrh : BitVec 32) : fifoDepth (prvSetupHardware lcrh) = 16 := by
  unfold fifoDepth prvSetupHardware mainFIFO_SET UART_LCR_H_FEN
  apply if_neg
  intro h
  have hbit := congrArg (fun x : BitVec 32 => x.getLsbD 4) h
  simp at hbit

/-! ## The handler, step by step -/

/-- The next statement of `vUART_ISR`; `print` has characters of `sendUART` left. -/
inductive HandlerPc where
  | idle
  | status
  | clear
  | read
  | print (left : Nat)
  | send
  deriving DecidableEq, Repr

/-- The state of the receive side: `arrived` and `examined` are histories, oldest first. -/
structure State where
  rxFifo : Fifo UInt8 16
  rxFlag : Bool
  pc : HandlerPc
  ulStatus : Bool
  arrived : List UInt8
  examined : List UInt8
  deriving DecidableEq, Repr

def init : State := ⟨Fifo.empty, false, .idle, false, [], []⟩

/-- What the handler prints for a command byte. -/
def incrementedText : String := "\n[INFO] | UART_ISR | N incremented"
def decrementedText : String := "\n[INFO] | UART_ISR | N decremented"

/-- What follows the read of `c`. -/
def afterRead (c : UInt8) : HandlerPc :=
  if c = Window.byteU then .print incrementedText.length
  else if c = Window.byteD then .print decrementedText.length
  else .idle

/-- A byte comes in. -/
def arrive (c : UInt8) (w : State) : Option State :=
  match w.rxFifo.send c with
  | some q =>
    some { w with rxFifo := q, rxFlag := w.rxFlag || q.items.length == 1, arrived := w.arrived ++ [c] }
  | none => none

/-- One step of `vUART_ISR`, entered while the interrupt is pending. -/
def vUART_ISR (w : State) : Option State :=
  match w.pc with
  | .idle => if w.rxFlag then some { w with pc := .status } else none
  | .status => some { w with ulStatus := w.rxFlag, pc := .clear }
  -- clears what the status has shown, whatever has come in since
  | .clear => some { w with rxFlag := w.rxFlag && !w.ulStatus, pc := .read }
  -- one byte, however many there are
  | .read =>
    if w.ulStatus then
      match w.rxFifo.receive with
      | some (c, q) => some { w with rxFifo := q, pc := afterRead c, examined := w.examined ++ [c] }
      | none => none
    else some { w with pc := .idle }
  | .print 0 => some { w with pc := .send }
  | .print (n + 1) => some { w with pc := .print n }
  | .send => some { w with pc := .idle }

inductive Event where
  | arrive (c : UInt8)
  | handler
  deriving DecidableEq, Repr

def step (w : State) : Event → Option State
  | .arrive c => arrive c w
  | .handler => vUART_ISR w

/-- The interrupt is not pending and the handler is not running. -/
def Quiet (w : State) : Prop := w.rxFlag = false ∧ w.pc = .idle

instance (w : State) : Decidable (Quiet w) := inferInstanceAs (Decidable (_ ∧ _))

/-- The bytes that arrive find the FIFO empty. -/
def ArrivesAlone (w : State) : Event → Prop
  | .arrive _ => w.rxFifo.items = []
  | .handler => True

instance (w : State) (e : Event) : Decidable (ArrivesAlone w e) := by
  cases e <;> unfold ArrivesAlone <;> infer_instance

/-! ## What one step can do -/

/-- The steps of the receive side. A read of an empty FIFO is left out: `reads_nonempty`
shows that there is none. -/
inductive Step (w : State) : Event → State → Prop where
  | arrive (c : UInt8) (q : Fifo UInt8 16) (hq : q.items = w.rxFifo.items ++ [c]) :
    Step w (.arrive c)
      { w with rxFifo := q, rxFlag := w.rxFlag || q.items.length == 1, arrived := w.arrived ++ [c] }
  | enter (hpc : w.pc = .idle) (hflag : w.rxFlag = true) : Step w .handler { w with pc := .status }
  | status (hpc : w.pc = .status) : Step w .handler { w with ulStatus := w.rxFlag, pc := .clear }
  | clear (hpc : w.pc = .clear) :
    Step w .handler { w with rxFlag := w.rxFlag && !w.ulStatus, pc := .read }
  | read (c : UInt8) (q : Fifo UInt8 16) (hpc : w.pc = .read) (hstatus : w.ulStatus = true)
    (hq : w.rxFifo.items = c :: q.items) :
    Step w .handler { w with rxFifo := q, pc := afterRead c, examined := w.examined ++ [c] }
  | skip (hpc : w.pc = .read) (hstatus : w.ulStatus = false) : Step w .handler { w with pc := .idle }
  | print (n : Nat) (pc : HandlerPc) (hpc : w.pc = .print n) (hpc' : pc = .send ∨ ∃ m, pc = .print m) :
    Step w .handler { w with pc := pc }
  | send (hpc : w.pc = .send) : Step w .handler { w with pc := .idle }

theorem step_cases {w w' : State} {e : Event} (h : step w e = some w') : Step w e w' := by
  cases e with
  | arrive c =>
    simp only [step, arrive] at h
    cases hs : w.rxFifo.send c with
    | none => simp [hs] at h
    | some q =>
      simp only [hs, Option.some.injEq] at h
      exact h ▸ .arrive c q (Fifo.send_eq_some.mp hs).2
  | handler =>
    simp only [step, vUART_ISR] at h
    cases hpc : w.pc with
    | idle =>
      simp only [hpc] at h
      split at h
      · next hflag => exact Option.some.inj h ▸ .enter hpc hflag
      · cases h
    | status =>
      simp only [hpc, Option.some.injEq] at h
      exact h ▸ .status hpc
    | clear =>
      simp only [hpc, Option.some.injEq] at h
      exact h ▸ .clear hpc
    | read =>
      simp only [hpc] at h
      split at h
      · next hstatus =>
        cases hr : w.rxFifo.receive with
        | none => simp [hr] at h
        | some cq =>
          simp only [hr, Option.some.injEq] at h
          exact h ▸ .read cq.1 cq.2 hpc hstatus (Fifo.receive_eq_some.mp hr)
      · next hstatus => exact Option.some.inj h ▸ .skip hpc (Bool.eq_false_iff.mpr hstatus)
    | print n =>
      cases n with
      | zero =>
        simp only [hpc, Option.some.injEq] at h
        exact h ▸ .print 0 .send hpc (.inl rfl)
      | succ n =>
        simp only [hpc, Option.some.injEq] at h
        exact h ▸ .print (n + 1) (.print n) hpc (.inr ⟨n, rfl⟩)
    | send =>
      simp only [hpc, Option.some.injEq] at h
      exact h ▸ .send hpc

/-! ## Reads to come -/

/-- The reads that are sure to come: one for a pending interrupt, one for a handler
about to read. -/
def readsDue (w : State) : Nat :=
  (if w.rxFlag then 1 else 0) + if w.pc = .read then 1 else 0

/-- The handler runs for an interrupt it has not cleared yet, or has just cleared. -/
structure Coherent (w : State) : Prop where
  entered : w.pc = .status → w.rxFlag = true
  pending : w.pc = .clear → w.rxFlag = true ∧ w.ulStatus = true
  cleared : w.pc = .read → w.ulStatus = true

/-- Every byte in the FIFO has a read to come. -/
def Attended (w : State) : Prop := Coherent w ∧ w.rxFifo.items.length = readsDue w

/-- More bytes than reads to come. -/
def Strands (w : State) : Prop := Coherent w ∧ readsDue w < w.rxFifo.items.length

/-- Outside the first three statements there is nothing to show. -/
theorem coherent_elsewhere {w : State} (hs : w.pc ≠ .status) (hc : w.pc ≠ .clear) (hr : w.pc ≠ .read) :
    Coherent w :=
  ⟨fun h => absurd h hs, fun h => absurd h hc, fun h => absurd h hr⟩

theorem coherent_init : Coherent init := coherent_elsewhere (by decide) (by decide) (by decide)

theorem afterRead_ne (c : UInt8) : afterRead c ≠ .status ∧ afterRead c ≠ .clear ∧ afterRead c ≠ .read := by
  unfold afterRead
  split
  · simp
  · split <;> simp

theorem coherent_step {w w' : State} {e : Event} (hc : Coherent w) (h : Step w e w') : Coherent w' := by
  cases h with
  | arrive c q hq =>
    refine ⟨?_, ?_, hc.cleared⟩
    · intro h
      simp [hc.entered h]
    · intro h
      simp [hc.pending h]
  | enter hpc hflag => exact ⟨fun _ => hflag, by simp, by simp⟩
  | status hpc =>
    have hflag := hc.entered hpc
    exact ⟨by simp, fun _ => ⟨hflag, hflag⟩, by simp⟩
  | clear hpc => exact ⟨by simp, by simp, fun _ => (hc.pending hpc).2⟩
  | read c q hpc hstatus hq =>
    obtain ⟨hs, hcl, hr⟩ := afterRead_ne c
    exact coherent_elsewhere hs hcl hr
  | skip hpc hstatus => exact coherent_elsewhere (by simp) (by simp) (by simp)
  | print n pc hpc hpc' =>
    obtain hpc' | ⟨m, hpc'⟩ := hpc'
    · subst hpc'
      exact coherent_elsewhere (by simp) (by simp) (by simp)
    · subst hpc'
      exact coherent_elsewhere (by simp) (by simp) (by simp)
  | send hpc => exact coherent_elsewhere (by simp) (by simp) (by simp)

/-- The handler takes a byte for every read: the two sides move together. -/
theorem handler_balance {w w' : State} (hc : Coherent w) (h : Step w .handler w') :
    w'.rxFifo.items.length + readsDue w = w.rxFifo.items.length + readsDue w' := by
  cases h with
  | enter hpc hflag => simp [readsDue, hpc]
  | status hpc => simp [readsDue, hpc]
  | clear hpc =>
    obtain ⟨hflag, hstatus⟩ := hc.pending hpc
    simp [readsDue, hpc, hflag, hstatus]
  | read c q hpc hstatus hq =>
    simp only [readsDue, hpc, hq, List.length_cons, if_true, if_neg (afterRead_ne c).2.2]
    omega
  | skip hpc hstatus =>
    rw [hc.cleared hpc] at hstatus
    cases hstatus
  | print n pc hpc hpc' =>
    obtain hpc' | ⟨m, hpc'⟩ := hpc'
    · simp [readsDue, hpc, hpc']
    · simp [readsDue, hpc, hpc']
  | send hpc => simp [readsDue, hpc]

/-- A byte that arrives alone brings its read with it. -/
theorem arrive_alone {w w' : State} {c : UInt8} (hempty : w.rxFifo.items = []) (hdue : readsDue w = 0)
    (h : Step w (.arrive c) w') : w'.rxFifo.items.length = 1 ∧ readsDue w' = 1 := by
  cases h with
  | arrive _ q hq =>
    unfold readsDue at hdue
    have hpc : w.pc ≠ .read := by
      intro hpc
      simp [hpc] at hdue
    simp [readsDue, hq, hempty, hpc]

/-- A byte that arrives behind another brings none. -/
theorem arrive_behind {w w' : State} {c : UInt8} (hne : w.rxFifo.items ≠ []) (h : Step w (.arrive c) w') :
    w'.rxFifo.items.length = w.rxFifo.items.length + 1 ∧ readsDue w' = readsDue w := by
  cases h with
  | arrive _ q hq =>
    have hlevel : (q.items.length == 1) = false := by simp [hq, hne]
    refine ⟨by simp [hq], ?_⟩
    simp [readsDue, hlevel]

theorem attended_step {w w' : State} {e : Event} (ha : Attended w) (hg : ArrivesAlone w e)
    (h : Step w e w') : Attended w' := by
  obtain ⟨hc, hlen⟩ := ha
  refine ⟨coherent_step hc h, ?_⟩
  cases e with
  | arrive c =>
    have hempty : w.rxFifo.items = [] := hg
    rw [hempty, List.length_nil] at hlen
    obtain ⟨hone, hdue⟩ := arrive_alone hempty hlen.symm h
    omega
  | handler =>
    have := handler_balance hc h
    omega

theorem attended_exec {es : List Event} {w : State} (h : exec step init es = some w)
    (hg : AllSteps step ArrivesAlone init es) : Attended w :=
  exec_inv_of (fun _ _ _ ha hs hstep => attended_step ha hs (step_cases hstep)) h hg ⟨coherent_init, rfl⟩

/-- Once there is a byte too many, there always is. -/
theorem strands_step {w w' : State} {e : Event} (hs : Strands w) (h : Step w e w') : Strands w' := by
  obtain ⟨hc, hlen⟩ := hs
  refine ⟨coherent_step hc h, ?_⟩
  cases e with
  | arrive c =>
    have hne : w.rxFifo.items ≠ [] := List.ne_nil_of_length_pos (by omega)
    obtain ⟨hmore, hdue⟩ := arrive_behind hne h
    omega
  | handler =>
    have := handler_balance hc h
    omega

/-- A byte left behind stays: once the handler is at rest over a FIFO that is not empty,
no byte raises the interrupt again and the handler examines nothing more. -/
theorem stranded_stays {es : List Event} {w w' : State} (h : exec step w es = some w') (hq : Quiet w)
    (hne : w.rxFifo.items ≠ []) : Quiet w' ∧ w.rxFifo.items <+: w'.rxFifo.items ∧ w'.examined = w.examined := by
  refine exec_inv (I := fun v => Quiet v ∧ w.rxFifo.items <+: v.rxFifo.items ∧ v.examined = w.examined)
    ?_ h ⟨hq, List.prefix_refl _, rfl⟩
  intro u e v hu hstep
  obtain ⟨⟨hflag, hidle⟩, hprefix, hexam⟩ := hu
  have hun : u.rxFifo.items ≠ [] := fun h => hne (List.prefix_nil.mp (h ▸ hprefix))
  cases step_cases hstep with
  | arrive c q hq =>
    refine ⟨⟨?_, hidle⟩, ?_, hexam⟩
    · simp [hflag, hq, hun]
    · show w.rxFifo.items <+: q.items
      rw [hq]
      exact hprefix.trans (List.prefix_append _ _)
  | enter hpc hraised =>
    rw [hflag] at hraised
    cases hraised
  -- no other statement of the handler is the next one
  | status hpc => exact absurd (hidle.symm.trans hpc) (by simp)
  | clear hpc => exact absurd (hidle.symm.trans hpc) (by simp)
  | read c q hpc hstatus hq => exact absurd (hidle.symm.trans hpc) (by simp)
  | skip hpc hstatus => exact absurd (hidle.symm.trans hpc) (by simp)
  | print n pc hpc hpc' => exact absurd (hidle.symm.trans hpc) (by simp)
  | send hpc => exact absurd (hidle.symm.trans hpc) (by simp)

/-- The FIFO has a byte for every read to come, and perhaps more. -/
def Covered (w : State) : Prop := Coherent w ∧ readsDue w ≤ w.rxFifo.items.length

theorem covered_step {w w' : State} {e : Event} (hc : Covered w) (h : Step w e w') : Covered w' := by
  obtain ⟨hco, hle⟩ := hc
  refine ⟨coherent_step hco h, ?_⟩
  cases e with
  | arrive c =>
    by_cases hempty : w.rxFifo.items = []
    · rw [hempty, List.length_nil] at hle
      obtain ⟨hone, hdue⟩ := arrive_alone hempty (Nat.le_zero.mp hle) h
      omega
    · obtain ⟨hmore, hdue⟩ := arrive_behind hempty h
      omega
  | handler =>
    have := handler_balance hco h
    omega

/-- There is a byte for every read the handler makes. -/
theorem reads_nonempty {es : List Event} {w : State} (h : exec step init es = some w) (hpc : w.pc = .read) :
    w.rxFifo.items ≠ [] := by
  have hc : Covered w := exec_inv (fun _ _ _ hc hs => covered_step hc (step_cases hs)) h
    ⟨coherent_init, by decide⟩
  intro hempty
  have hle := hc.2
  rw [hempty, readsDue, if_pos hpc] at hle
  simp at hle

/-- The handler has examined what arrived, in order, up to what is still in the FIFO. -/
theorem arrived_eq {es : List Event} {w : State} (h : exec step init es = some w) :
    w.arrived = w.examined ++ w.rxFifo.items := by
  refine exec_inv (I := fun w => w.arrived = w.examined ++ w.rxFifo.items) ?_ h rfl
  intro u e v hu hstep
  cases step_cases hstep with
  | arrive c q hq =>
    calc u.arrived ++ [c]
        = u.examined ++ u.rxFifo.items ++ [c] := by rw [hu]
      _ = u.examined ++ q.items := by rw [hq, List.append_assoc]
  | enter hpc hflag => exact hu
  | status hpc => exact hu
  | clear hpc => exact hu
  | read c q hpc hstatus hq =>
    calc u.arrived
        = u.examined ++ u.rxFifo.items := hu
      _ = u.examined ++ [c] ++ q.items := by rw [hq, List.append_assoc, List.singleton_append]
  | skip hpc hstatus => exact hu
  | print n pc hpc hpc' => exact hu
  | send hpc => exact hu

/-- **No byte is stranded exactly when every byte arrives alone.** In every run that ends
with the interrupt not pending and the handler not running: every byte arrived on an
empty FIFO if and only if the FIFO is empty, that is, every byte has been examined. -/
theorem examined_iff_arrived_alone {es : List Event} {w : State} (h : exec step init es = some w)
    (hq : Quiet w) :
    AllSteps step ArrivesAlone init es ↔ w.rxFifo.items = [] ∧ w.examined = w.arrived := by
  have hdue : readsDue w = 0 := by simp [readsDue, hq.1, hq.2]
  refine ⟨?_, ?_⟩
  · intro hg
    have ha := attended_exec h hg
    have hempty : w.rxFifo.items = [] := List.eq_nil_of_length_eq_zero (ha.2.trans hdue)
    refine ⟨hempty, ?_⟩
    rw [arrived_eq h, hempty, List.append_nil]
  · intro hempty
    by_contra hng
    obtain ⟨bs, e, cs, u, v, hes, hu, hbs, he, hv, hcs⟩ := exec_breaks h hng
    subst hes
    have ha := attended_exec hu hbs
    cases e with
    | handler => exact he trivial
    | arrive c =>
      -- the first byte to arrive behind another leaves one too many for the rest of the run
      obtain ⟨hmore, hsame⟩ := arrive_behind he (step_cases hv)
      have hlen := ha.2
      have hstrands : Strands v := ⟨coherent_step ha.1 (step_cases hv), by omega⟩
      have hend : Strands w := exec_inv (fun _ _ _ hs hstep => strands_step hs (step_cases hstep)) hcs hstrands
      have hlast := hend.2
      rw [hempty.1, hdue] at hlast
      exact Nat.lt_irrefl 0 hlast

/-- A `'U'`, and another byte while the handler prints for it. -/
def aloneBytes : List Event :=
  .arrive Window.byteU :: List.replicate 10 .handler ++ .arrive 120 :: List.replicate 34 .handler

theorem examined_iff_arrived_alone_two :
    AllSteps step ArrivesAlone init aloneBytes ↔
      ((exec step init aloneBytes).getD init).rxFifo.items = [] ∧
        ((exec step init aloneBytes).getD init).examined = ((exec step init aloneBytes).getD init).arrived := by
  have hrun : exec step init aloneBytes = some ((exec step init aloneBytes).getD init) := rfl
  exact examined_iff_arrived_alone hrun (by decide)

/-- A `'U'` arrives after the handler has cleared the interrupt of another byte and
before it reads that byte. -/
def strandedByte : List Event :=
  [.arrive 120, .handler, .handler, .handler, .arrive Window.byteU, .handler]

/-- After `strandedByte` the handler is at rest and the `'U'` is still in the FIFO. -/
theorem byte_stranded : ¬ ∀ es w, exec step init es = some w → Quiet w → w.rxFifo.items = [] := by
  intro h
  have hempty := h strandedByte ((exec step init strandedByte).getD init) rfl (by decide)
  exact absurd hempty (by decide)

end WindowFilter.Rx
