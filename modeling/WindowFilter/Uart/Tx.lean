import WindowFilter.Lib.Steps
import WindowFilter.Lib.Fifo
import WindowFilter.Lib.Interleaving

/- The transmit side of UART0, shared without a lock. `sendUART` puts its characters
   one by one; `UARTCharPut` waits until the FIFO is not full and then writes, two
   steps between which a higher priority may come in. Calls in progress form a stack,
   the running one on top: a call by a higher priority is pushed, and the one below
   moves again when it has returned. A character written to a full FIFO is dropped.

   * `interleaves_step`: what the FIFO accepts is always an interleaving of what got
     through of each call.
   * `interleaved_iff_writes_fit`: it is an interleaving of the complete messages
     exactly when no write met a full FIFO. -/
namespace WindowFilter.Tx
open Steps

/-- The contexts that print. -/
inductive Context where
  | vTaskMonitor
  | vTaskUpdateN
  | vTaskReceiverDataSensor
  | vUART_ISR
  deriving DecidableEq, Repr

/-- The priorities main gives the tasks, and the handler above them all. -/
def Context.priority : Context → Nat
  | .vTaskMonitor => 1
  | .vTaskUpdateN => 3
  | .vTaskReceiverDataSensor => 4
  | .vUART_ISR => 5

/-- A call of `sendUART`: the string, what is left of it, whether `UARTCharPut` has
seen room for the next character, and the characters of the call that got through. -/
structure Call where
  context : Context
  string : List UInt8
  rest : List UInt8
  observed : Bool
  through : List UInt8
  deriving DecidableEq, Repr

/-- The calls in progress, the running one first; the calls that have returned; the
FIFO; and all the characters it has accepted, oldest first. -/
structure State where
  stack : List Call
  returned : List Call
  txFifo : Fifo UInt8 16
  accepted : List UInt8
  deriving DecidableEq, Repr

def init : State := ⟨[], [], Fifo.empty, []⟩

/-- A call begins, the running call sees room, writes or returns, or a character leaves
the FIFO on the line. -/
inductive Event where
  | call (context : Context) (string : List UInt8)
  | observe
  | write
  | finish
  | drain
  deriving DecidableEq, Repr

/-- `sendUART(string)`, by a context that may run: nothing of its priority or above is
in progress. -/
def call (context : Context) (string : List UInt8) (w : State) : Option State :=
  if ∀ c ∈ w.stack.head?, c.context.priority < context.priority then
    some { w with stack := ⟨context, string, string, false, []⟩ :: w.stack }
  else none

/-- The end of the wait in `UARTCharPut`: the FIFO is not full. -/
def observe (w : State) : Option State :=
  match w.stack with
  | [] => none
  | c :: cs =>
    if c.observed = false ∧ c.rest ≠ [] ∧ w.txFifo.items.length < 16 then
      some { w with stack := { c with observed := true } :: cs }
    else none

/-- The write in `UARTCharPut`, whatever has happened since the wait. -/
def write (w : State) : Option State :=
  match w.stack with
  | [] => none
  | c :: cs =>
    match c.observed, c.rest with
    | true, x :: rest =>
      match w.txFifo.send x with
      | some q =>
        some { w with
          stack := { c with rest := rest, observed := false, through := c.through ++ [x] } :: cs
          txFifo := q
          accepted := w.accepted ++ [x] }
      -- the FIFO has filled up since the wait
      | none => some { w with stack := { c with rest := rest, observed := false } :: cs }
    | _, _ => none

/-- The end of the string. -/
def finish (w : State) : Option State :=
  match w.stack with
  | [] => none
  | c :: cs => if c.rest = [] then some { w with stack := cs, returned := c :: w.returned } else none

def drain (w : State) : Option State :=
  match w.txFifo.receive with
  | some (_, q) => some { w with txFifo := q }
  | none => none

def step (w : State) : Event → Option State
  | .call context string => call context string w
  | .observe => observe w
  | .write => write w
  | .finish => finish w
  | .drain => drain w

/-- A write finds room in the FIFO. -/
def WriteFits (w : State) (e : Event) : Prop := e = .write → w.txFifo.items.length < 16

instance (w : State) (e : Event) : Decidable (WriteFits w e) := by
  unfold WriteFits; infer_instance

/-- All the calls made, those in progress first. -/
def calls (w : State) : List Call := w.stack ++ w.returned

/-! ## What one step can do -/

inductive Step (w : State) : Event → State → Prop where
  | call (context : Context) (string : List UInt8) :
    Step w (.call context string) { w with stack := ⟨context, string, string, false, []⟩ :: w.stack }
  | observe (c : Call) (cs : List Call) (hstack : w.stack = c :: cs) :
    Step w .observe { w with stack := { c with observed := true } :: cs }
  | accept (c : Call) (cs : List Call) (x : UInt8) (rest : List UInt8) (q : Fifo UInt8 16)
    (hstack : w.stack = c :: cs) (hrest : c.rest = x :: rest) (hroom : w.txFifo.items.length < 16) :
    Step w .write { w with
      stack := { c with rest := rest, observed := false, through := c.through ++ [x] } :: cs
      txFifo := q
      accepted := w.accepted ++ [x] }
  | drop (c : Call) (cs : List Call) (x : UInt8) (rest : List UInt8)
    (hstack : w.stack = c :: cs) (hrest : c.rest = x :: rest) (hfull : w.txFifo.items.length = 16) :
    Step w .write { w with stack := { c with rest := rest, observed := false } :: cs }
  | finish (c : Call) (cs : List Call) (hstack : w.stack = c :: cs) (hrest : c.rest = []) :
    Step w .finish { w with stack := cs, returned := c :: w.returned }
  | drain (q : Fifo UInt8 16) : Step w .drain { w with txFifo := q }

theorem step_cases {w w' : State} {e : Event} (h : step w e = some w') : Step w e w' := by
  cases e with
  | call context string =>
    simp only [step, call] at h
    split at h
    · exact Option.some.inj h ▸ .call context string
    · cases h
  | observe =>
    simp only [step, observe] at h
    cases hs : w.stack with
    | nil => simp [hs] at h
    | cons c cs =>
      simp only [hs] at h
      split at h
      · exact Option.some.inj h ▸ .observe c cs hs
      · cases h
  | write =>
    simp only [step, write] at h
    cases hs : w.stack with
    | nil => simp [hs] at h
    | cons c cs =>
      simp only [hs] at h
      split at h
      · next x rest _ hrest =>
        cases hsend : w.txFifo.send x with
        | some q =>
          simp only [hsend, Option.some.injEq] at h
          exact h ▸ .accept c cs x rest q hs hrest (Fifo.send_eq_some.mp hsend).1
        | none =>
          simp only [hsend, Option.some.injEq] at h
          exact h ▸ .drop c cs x rest hs hrest (Fifo.send_eq_none.mp hsend)
      · cases h
  | finish =>
    simp only [step, finish] at h
    cases hs : w.stack with
    | nil => simp [hs] at h
    | cons c cs =>
      simp only [hs] at h
      split at h
      · next hrest => exact Option.some.inj h ▸ .finish c cs hs hrest
      · cases h
  | drain =>
    simp only [step, drain] at h
    cases hr : w.txFifo.receive with
    | none => simp [hr] at h
    | some xq =>
      simp only [hr, Option.some.injEq] at h
      exact h ▸ .drain xq.2

/-! ## What gets through -/

/-- The accepted characters are an interleaving of what got through of each call, and
a call that has returned has nothing left. -/
structure Interleaves (w : State) : Prop where
  accepted : Interleaving ((calls w).map Call.through) w.accepted
  ended : ∀ c ∈ w.returned, c.rest = []

theorem interleaves_init : Interleaves init := ⟨rfl, by simp [init]⟩

theorem interleaves_step {w w' : State} {e : Event} (hi : Interleaves w) (h : Step w e w') : Interleaves w' := by
  obtain ⟨haccepted, hended⟩ := hi
  unfold calls at haccepted
  cases h with
  | call context string => exact ⟨haccepted.start, hended⟩
  | observe c cs hstack =>
    rw [hstack] at haccepted
    exact ⟨haccepted, hended⟩
  | accept c cs x rest q hstack hrest hroom =>
    rw [hstack] at haccepted
    exact ⟨haccepted.put x, hended⟩
  | drop c cs x rest hstack hrest hfull =>
    rw [hstack] at haccepted
    exact ⟨haccepted, hended⟩
  | finish c cs hstack hrest =>
    rw [hstack] at haccepted
    refine ⟨haccepted.perm ?_, ?_⟩
    · exact (List.perm_middle.symm).map Call.through
    · intro d hd
      obtain hd | hd := List.mem_cons.mp hd
      · rw [hd]
        exact hrest
      · exact hended d hd
  | drain q => exact ⟨haccepted, hended⟩

/-! ## With room for every write -/

/-- Nothing has been lost: each call has let through its string up to what is left. -/
def Whole (w : State) : Prop := ∀ c ∈ calls w, c.through ++ c.rest = c.string

theorem whole_step {w w' : State} {e : Event} (hw : Whole w) (hg : WriteFits w e) (h : Step w e w') :
    Whole w' := by
  unfold Whole calls at *
  cases h with
  | call context string =>
    intro c hc
    obtain hc | hc := List.mem_cons.mp hc
    · rw [hc]
      rfl
    · exact hw c hc
  | observe c cs hstack =>
    rw [hstack, List.cons_append, List.forall_mem_cons] at hw
    rw [List.cons_append, List.forall_mem_cons]
    exact hw
  | accept c cs x rest q hstack hrest hroom =>
    rw [hstack, List.cons_append, List.forall_mem_cons, hrest] at hw
    rw [List.cons_append, List.forall_mem_cons]
    refine ⟨?_, hw.2⟩
    rw [List.append_assoc]
    exact hw.1
  | drop c cs x rest hstack hrest hfull =>
    have := hg rfl
    omega
  | finish c cs hstack hrest =>
    rw [hstack] at hw
    intro d hd
    exact hw d (List.perm_middle.mem_iff.mp hd)
  | drain q => exact hw

theorem whole_exec {es : List Event} {w : State} (h : exec step init es = some w)
    (hg : AllSteps step WriteFits init es) : Whole w := by
  refine exec_inv_of (fun _ _ _ hw hf hs => whole_step hw hf (step_cases hs)) h hg ?_
  intro c hc
  cases hc

/-! ## After a write that did not fit -/

/-- The sum of `f` over the calls. -/
def total (f : Call → Nat) (w : State) : Nat := ((calls w).map f).sum

/-- The characters of a call that got through or still may. -/
def alive (c : Call) : Nat := c.through.length + c.rest.length

/-- Some character will never get through. -/
def Lossy (w : State) : Prop := total alive w < total (fun c => c.string.length) w

theorem whole_total {w : State} (hw : Whole w) : total alive w = total (fun c => c.string.length) w := by
  unfold total
  congr 1
  apply List.map_congr_left
  intro c hc
  rw [alive, ← List.length_append, hw c hc]

/-- What a step does to the characters alive: a dropped one is gone, and nothing else is. -/
theorem total_step {w w' : State} {e : Event} (h : Step w e w') :
    total (fun c => c.string.length) w' + total alive w =
      total (fun c => c.string.length) w + total alive w' +
        if e = .write ∧ w.txFifo.items.length = 16 then 1 else 0 := by
  unfold total calls
  cases h with
  | call context string =>
    simp [alive]
    omega
  | observe c cs hstack => simp [hstack, alive]
  | accept c cs x rest q hstack hrest hroom =>
    have hnot : ¬ w.txFifo.items.length = 16 := by omega
    simp [hstack, alive, hrest, hnot]
    omega
  | drop c cs x rest hstack hrest hfull =>
    simp [hstack, alive, hrest, hfull]
    omega
  | finish c cs hstack hrest =>
    simp [hstack]
    omega
  | drain q => simp

theorem lossy_step {w w' : State} {e : Event} (hl : Lossy w) (h : Step w e w') : Lossy w' := by
  have := total_step h
  unfold Lossy at *
  omega

/-- A write that does not fit loses its character. -/
theorem lossy_of_full {w w' : State} {e : Event} (hw : Whole w) (he : ¬ WriteFits w e) (h : Step w e w') :
    Lossy w' := by
  simp only [WriteFits, Classical.not_imp, Nat.not_lt] at he
  have hfull : w.txFifo.items.length = 16 := Nat.le_antisymm w.txFifo.bounded he.2
  have hstep := total_step h
  have htotal := whole_total hw
  rw [if_pos ⟨he.1, hfull⟩] at hstep
  unfold Lossy
  omega

theorem calls_returned {w : State} (hend : w.stack = []) : calls w = w.returned := by
  rw [calls, hend, List.nil_append]

/-- With every call returned nothing is left to write, so a lost character makes what was
accepted shorter than the messages. -/
theorem not_interleaving_of_lossy {w : State} (hi : Interleaves w) (hend : w.stack = []) (hl : Lossy w) :
    ¬ Interleaving (w.returned.map Call.string) w.accepted := by
  intro hinter
  have hthrough : Interleaving (w.returned.map Call.through) w.accepted := calls_returned hend ▸ hi.accepted
  have halive : w.returned.map alive = w.returned.map (fun c => c.through.length) := by
    apply List.map_congr_left
    intro c hc
    rw [alive, hi.ended c hc, List.length_nil, Nat.add_zero]
  have hlen : total alive w = total (fun c => c.string.length) w := by
    unfold total
    rw [calls_returned hend]
    calc (w.returned.map alive).sum
        = ((w.returned.map Call.through).map List.length).sum := by rw [halive, List.map_map]; rfl
      _ = w.accepted.length := hthrough.length.symm
      _ = ((w.returned.map Call.string).map List.length).sum := hinter.length
      _ = (w.returned.map (fun c => c.string.length)).sum := by rw [List.map_map]; rfl
  exact absurd hlen (Nat.ne_of_lt hl)

/-- **Messages come out whole exactly when every write fits.** In every run after which
all calls of `sendUART` have returned: no write met a full FIFO if and only if the
characters accepted are an interleaving of the complete strings. -/
theorem interleaved_iff_writes_fit {es : List Event} {w : State} (h : exec step init es = some w)
    (hend : w.stack = []) :
    AllSteps step WriteFits init es ↔ Interleaving (w.returned.map Call.string) w.accepted := by
  have hi : Interleaves w := exec_inv (fun _ _ _ hi hs => interleaves_step hi (step_cases hs)) h interleaves_init
  refine ⟨?_, ?_⟩
  · intro hg
    have hwhole := whole_exec h hg
    have hsame : w.returned.map Call.through = w.returned.map Call.string := by
      apply List.map_congr_left
      intro c hc
      have hc' := hwhole c (List.mem_append_right _ hc)
      rw [hi.ended c hc, List.append_nil] at hc'
      exact hc'
    rw [← hsame, ← calls_returned hend]
    exact hi.accepted
  · intro hinter
    by_contra hng
    -- the first write that does not fit loses a character for the rest of the run
    obtain ⟨bs, e, cs, u, v, hes, hu, hbs, he, hv, hcs⟩ := exec_breaks h hng
    have hlossy : Lossy v := lossy_of_full (whole_exec hu hbs) he (step_cases hv)
    have hlast : Lossy w := exec_inv (fun _ _ _ hl hs => lossy_step hl (step_cases hs)) hcs hlossy
    exact not_interleaving_of_lossy hi hend hlast hinter

/-- The characters of a C string, up to the terminating null. -/
def chars (string : String) : List UInt8 := string.toList.map Char.toUInt8

/-- The running call puts `n` characters in a FIFO that has room. -/
def put (n : Nat) : List Event := (List.replicate n [Event.observe, Event.write]).flatten

/-- The running call puts `n` characters in the FIFO, each after one has left it. -/
def putFull (n : Nat) : List Event := (List.replicate n [Event.drain, Event.observe, Event.write]).flatten

/-- `vTaskUpdateN` prints 10 characters and sees room for the next; a `'U'` is then
handled, whose 34 characters leave room. -/
def preemptedWithRoom : List Event :=
  [Event.call .vTaskUpdateN (chars "\n[INFO] | TaskUpdateN | N: ")] ++ put 10 ++ [Event.observe] ++
  [Event.call .vUART_ISR (chars "\n[INFO] | UART_ISR | N incremented")] ++ put 5 ++ putFull 29 ++ [Event.finish] ++
  [Event.write] ++ putFull 16 ++ [Event.finish]

theorem interleaved_iff_writes_fit_preempted :
    AllSteps step WriteFits init preemptedWithRoom ↔
      Interleaving (((exec step init preemptedWithRoom).getD init).returned.map Call.string)
        ((exec step init preemptedWithRoom).getD init).accepted := by
  have hrun : exec step init preemptedWithRoom = some ((exec step init preemptedWithRoom).getD init) := by
    decide +kernel
  exact interleaved_iff_writes_fit hrun (by decide +kernel)

/-- `vTaskUpdateN` prints 15 characters and sees room for the next; a `'U'` is then
handled, whose 34 characters leave the FIFO full. -/
def preempted : List Event :=
  [Event.call .vTaskUpdateN (chars "\n[INFO] | TaskUpdateN | N: ")] ++ put 15 ++ [Event.observe] ++
  [Event.call .vUART_ISR (chars "\n[INFO] | UART_ISR | N incremented")] ++ put 1 ++ putFull 33 ++ [Event.finish] ++
  [Event.write] ++ putFull 11 ++ [Event.finish]

/-- The character `vTaskUpdateN` had seen room for is lost. -/
theorem character_lost :
    ¬ ∀ es w, exec step init es = some w → w.stack = [] →
      Interleaving (w.returned.map Call.string) w.accepted := by
  intro h
  have hinter := h preempted ((exec step init preempted).getD init) (by decide +kernel) (by decide +kernel)
  exact absurd hinter.length (by decide +kernel)

end WindowFilter.Tx
