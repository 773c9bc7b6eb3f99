import WindowFilter.Lib.Steps
import WindowFilter.Window.Model
import WindowFilter.Pipeline.Display

/- The pipeline: `vTaskSensor` sends samples to `xSensorQueue`,
   `vTaskReceiverDataSensor` filters them and sends the averages to `xDisplayQueue`,
   `vTaskDisplay` draws these. One step of a task is one statement of its loop; a
   queue operation that has to wait is a step that is not enabled. The window is read
   from `valor_ventana`, which the pipeline does not write: `step` takes it as a
   parameter, and in `Open` anybody may write it between any two steps.

   The configuration is the one of the headers (`SENSOR_10HZ` is 1, so nothing is
   printed in the loops). `sent`, `reads`, `shown` and `drawn` are histories. -/
namespace WindowFilter.Pipeline
open Steps

def MIN_TEMPERATURE : Int := 0
def MAX_TEMPERATURE : Int := 20
abbrev MAX_VALUES_AVERAGE : Nat := 10

/-- The next statement of `vTaskSensor`'s loop. -/
inductive SensorPc where
  | update
  | send
  | delay
  deriving DecidableEq, Repr

structure Sensor where
  temperature_v : Int
  pc : SensorPc
  deriving DecidableEq, Repr

/-- The next statement of `vTaskReceiverDataSensor`: `start` prints the initial window,
`read` is `N = get_N_value()` with the clamp after it, and `sum i` is the test of the
summing loop for `i`. After `fault`, a division by zero or a read past `values`, the
language promises nothing. -/
inductive ReceiverPc where
  | start
  | receive
  | shift
  | read
  | sum (i : Nat)
  | divide
  | send
  | fault
  deriving DecidableEq, Repr

structure Receiver where
  values : Vector Int MAX_VALUES_AVERAGE
  value : Int
  filter : Int
  N : Int
  pc : ReceiverPc
  deriving DecidableEq, Repr

/-- The next statement of `vTaskDisplay`: one of the `n` left of the splash before the
loop, the receive, or the pass that draws. -/
inductive DisplayPc where
  | splash (n : Nat)
  | receive
  | draw
  deriving DecidableEq, Repr

structure Display where
  value_filter : Int
  screen : Screen
  pc : DisplayPc
  deriving DecidableEq

/-- The three tasks and the two queues between them. `sent` counts the completed sends
of the sensor, `reads` lists what `get_N_value` returned to the loop of the receiver,
`shown` what the display has received, both oldest first, and `drawn` counts its
completed passes. -/
structure State where
  sensor : Sensor
  xSensorQueue : Fifo Int Window.queueLength
  receiver : Receiver
  xDisplayQueue : Fifo Int Window.queueLength
  display : Display
  sent : Nat
  reads : List Int
  shown : List Int
  drawn : Nat
  deriving DecidableEq

/-- The splash: four rounds of `OSRAMStringDraw`, `vTaskDelay`, `OSRAMClear` and
`vTaskDelay`, without the last delay. Its text is not kept: a pass clears the display. -/
def splashLength : Nat := 15

def init : State where
  sensor := ⟨MIN_TEMPERATURE, .update⟩
  xSensorQueue := Fifo.empty
  receiver := ⟨Vector.replicate MAX_VALUES_AVERAGE 0, 0, 0, 0, .start⟩
  xDisplayQueue := Fifo.empty
  display := ⟨0, startScreen (Vector.replicate 96 0) (Vector.replicate 96 0), .splash splashLength⟩
  sent := 0
  reads := []
  shown := []
  drawn := 0

/-! ## The tasks -/

def vTaskSensor (p : State) : Option State :=
  match p.sensor.pc with
  | .update =>
    let temperature_v :=
      if p.sensor.temperature_v < MAX_TEMPERATURE then int32 (p.sensor.temperature_v + 1) else MIN_TEMPERATURE
    some { p with sensor := ⟨temperature_v, .send⟩ }
  | .send =>
    match p.xSensorQueue.send p.sensor.temperature_v with
    | some q => some { p with xSensorQueue := q, sent := p.sent + 1, sensor := { p.sensor with pc := .delay } }
    | none => none
  | .delay => some { p with sensor := { p.sensor with pc := .update } }

/-- The test on `N` after `N = get_N_value()`. -/
def clampN (N : Int) : Int :=
  if N < 0 then 1 else if N > MAX_VALUES_AVERAGE then MAX_VALUES_AVERAGE else N

def vTaskReceiverDataSensor (valor_ventana : Int) (p : State) : Option State :=
  let r := p.receiver
  match r.pc with
  | .start => some { p with receiver := { r with N := valor_ventana, pc := .receive } }
  | .receive =>
    match p.xSensorQueue.receive with
    | some (value, q) => some { p with xSensorQueue := q, receiver := { r with value := value, pc := .shift } }
    | none => none
  | .shift =>
    some { p with receiver := { r with values := ShiftRegister.push r.values r.value, pc := .read } }
  | .read =>
    some { p with receiver := { r with filter := 0, N := clampN valor_ventana, pc := .sum 0 },
                  reads := p.reads ++ [valor_ventana] }
  | .sum i =>
    if (i : Int) < r.N then
      if h : i < MAX_VALUES_AVERAGE then
        some { p with receiver := { r with filter := int32 (r.filter + r.values[i]), pc := .sum (i + 1) } }
      -- `values[i]` is no cell of the array
      else some { p with receiver := { r with pc := .fault } }
    else some { p with receiver := { r with pc := .divide } }
  | .divide =>
    if r.N = 0 then some { p with receiver := { r with pc := .fault } }
    else some { p with receiver := { r with filter := r.filter.tdiv r.N, pc := .send } }
  | .send =>
    match p.xDisplayQueue.send r.filter with
    | some q => some { p with xDisplayQueue := q, receiver := { r with pc := .receive } }
    | none => none
  | .fault => none

def vTaskDisplay (p : State) : Option State :=
  let d := p.display
  match d.pc with
  | .splash 0 => some { p with display := { d with pc := .receive } }
  | .splash (n + 1) => some { p with display := { d with pc := .splash n } }
  | .receive =>
    match p.xDisplayQueue.receive with
    | some (v, q) =>
      some { p with xDisplayQueue := q, display := { d with value_filter := v, pc := .draw },
                    shown := p.shown ++ [v] }
    | none => none
  | .draw =>
    some { p with display := { d with screen := drawPass d.screen d.value_filter, pc := .receive },
                  drawn := p.drawn + 1 }

inductive Task where
  | sensor
  | receiver
  | display
  deriving DecidableEq, Repr

/-- One statement of a task. -/
def step (valor_ventana : Int) (p : State) : Task → Option State
  | .sensor => vTaskSensor p
  | .receiver => vTaskReceiverDataSensor valor_ventana p
  | .display => vTaskDisplay p

/-! ## The pipeline under arbitrary writes to the window -/

/-- The pipeline and the global it reads. -/
structure Open where
  valor_ventana : Int
  pipe : State
  deriving DecidableEq

/-- A statement of a task, or a write to `valor_ventana`. -/
inductive Event where
  | task (t : Task)
  | write (n : Int)
  deriving DecidableEq, Repr

def openStep (w : Open) : Event → Option Open
  | .task t => (step w.valor_ventana w.pipe t).map (fun p => { w with pipe := p })
  | .write n => some { w with valor_ventana := n }

def openInit : Open := ⟨1, init⟩

theorem openStep_task {w w' : Open} {t : Task} (h : openStep w (.task t) = some w') :
    step w.valor_ventana w.pipe t = some w'.pipe ∧ w'.valor_ventana = w.valor_ventana := by
  simp only [openStep, Option.map_eq_some_iff] at h
  obtain ⟨p, hp, hw⟩ := h
  subst hw
  exact ⟨hp, rfl⟩

/-- What every step of a task keeps, every run of the pipeline keeps. -/
theorem open_inv {I : State → Prop} (hstep : ∀ v p t p', I p → step v p t = some p' → I p')
    {w w' : Open} {es : List Event} (h : exec openStep w es = some w') (h0 : I w.pipe) : I w'.pipe := by
  refine exec_inv (I := fun w => I w.pipe) ?_ h h0
  intro u e u' hu hs
  cases e with
  | task t => exact hstep _ _ t _ hu (openStep_task hs).1
  | write n =>
    simp only [openStep, Option.some.injEq] at hs
    subst hs
    exact hu

/-! ## What one step of a task can do -/

/-- The steps of `vTaskSensor` from `p`. -/
inductive SensorStep (p : State) : State → Prop where
  | update (hpc : p.sensor.pc = .update) :
    SensorStep p { p with sensor := ⟨if p.sensor.temperature_v < MAX_TEMPERATURE then
      int32 (p.sensor.temperature_v + 1) else MIN_TEMPERATURE, .send⟩ }
  | send (q : Fifo Int Window.queueLength) (hpc : p.sensor.pc = .send)
    (hroom : p.xSensorQueue.items.length < Window.queueLength)
    (hq : q.items = p.xSensorQueue.items ++ [p.sensor.temperature_v]) :
    SensorStep p { p with xSensorQueue := q, sent := p.sent + 1, sensor := { p.sensor with pc := .delay } }
  | delay (hpc : p.sensor.pc = .delay) :
    SensorStep p { p with sensor := { p.sensor with pc := .update } }

/-- The steps of `vTaskReceiverDataSensor` from `p` when `valor_ventana` is `v`. -/
inductive ReceiverStep (v : Int) (p : State) : State → Prop where
  | start (hpc : p.receiver.pc = .start) :
    ReceiverStep v p { p with receiver := { p.receiver with N := v, pc := .receive } }
  | receive (value : Int) (q : Fifo Int Window.queueLength) (hpc : p.receiver.pc = .receive)
    (hq : p.xSensorQueue.items = value :: q.items) :
    ReceiverStep v p
      { p with xSensorQueue := q, receiver := { p.receiver with value := value, pc := .shift } }
  | shift (hpc : p.receiver.pc = .shift) :
    ReceiverStep v p { p with receiver := { p.receiver with
      values := ShiftRegister.push p.receiver.values p.receiver.value, pc := .read } }
  | read (hpc : p.receiver.pc = .read) :
    ReceiverStep v p { p with
      receiver := { p.receiver with filter := 0, N := clampN v, pc := .sum 0 }, reads := p.reads ++ [v] }
  | add (i : Nat) (hi : i < MAX_VALUES_AVERAGE) (hpc : p.receiver.pc = .sum i) (hlt : (i : Int) < p.receiver.N) :
    ReceiverStep v p { p with receiver := { p.receiver with
      filter := int32 (p.receiver.filter + p.receiver.values[i]), pc := .sum (i + 1) } }
  | summed (i : Nat) (hpc : p.receiver.pc = .sum i) (hlt : ¬ (i : Int) < p.receiver.N) :
    ReceiverStep v p { p with receiver := { p.receiver with pc := .divide } }
  | outside (i : Nat) (hpc : p.receiver.pc = .sum i) (hlt : (i : Int) < p.receiver.N)
    (hi : ¬ i < MAX_VALUES_AVERAGE) :
    ReceiverStep v p { p with receiver := { p.receiver with pc := .fault } }
  | divide (hpc : p.receiver.pc = .divide) (hN : p.receiver.N ≠ 0) :
    ReceiverStep v p { p with receiver := { p.receiver with
      filter := p.receiver.filter.tdiv p.receiver.N, pc := .send } }
  | divideByZero (hpc : p.receiver.pc = .divide) (hN : p.receiver.N = 0) :
    ReceiverStep v p { p with receiver := { p.receiver with pc := .fault } }
  | send (q : Fifo Int Window.queueLength) (hpc : p.receiver.pc = .send)
    (hroom : p.xDisplayQueue.items.length < Window.queueLength)
    (hq : q.items = p.xDisplayQueue.items ++ [p.receiver.filter]) :
    ReceiverStep v p { p with xDisplayQueue := q, receiver := { p.receiver with pc := .receive } }

/-- The steps of `vTaskDisplay` from `p`. -/
inductive DisplayStep (p : State) : State → Prop where
  | splash (n : Nat) (pc : DisplayPc) (hpc : p.display.pc = .splash n)
    (hpc' : pc = .receive ∨ ∃ m, pc = .splash m) :
    DisplayStep p { p with display := { p.display with pc := pc } }
  | receive (v : Int) (q : Fifo Int Window.queueLength) (hpc : p.display.pc = .receive)
    (hq : p.xDisplayQueue.items = v :: q.items) :
    DisplayStep p { p with
      xDisplayQueue := q, display := { p.display with value_filter := v, pc := .draw }, shown := p.shown ++ [v] }
  | draw (hpc : p.display.pc = .draw) :
    DisplayStep p { p with
      display := { p.display with screen := drawPass p.display.screen p.display.value_filter, pc := .receive },
      drawn := p.drawn + 1 }

theorem sensor_step {p p' : State} (h : vTaskSensor p = some p') : SensorStep p p' := by
  unfold vTaskSensor at h
  cases hpc : p.sensor.pc with
  | update =>
    simp only [hpc, Option.some.injEq] at h
    exact h ▸ .update hpc
  | send =>
    simp only [hpc] at h
    cases hs : p.xSensorQueue.send p.sensor.temperature_v with
    | none => simp [hs] at h
    | some q =>
      simp only [hs, Option.some.injEq] at h
      obtain ⟨hroom, hq⟩ := Fifo.send_eq_some.mp hs
      exact h ▸ .send q hpc hroom hq
  | delay =>
    simp only [hpc, Option.some.injEq] at h
    exact h ▸ .delay hpc

theorem receiver_step {v : Int} {p p' : State} (h : vTaskReceiverDataSensor v p = some p') :
    ReceiverStep v p p' := by
  unfold vTaskReceiverDataSensor at h
  cases hpc : p.receiver.pc with
  | start =>
    simp only [hpc, Option.some.injEq] at h
    exact h ▸ .start hpc
  | receive =>
    simp only [hpc] at h
    cases hr : p.xSensorQueue.receive with
    | none => simp [hr] at h
    | some vq =>
      simp only [hr, Option.some.injEq] at h
      exact h ▸ .receive vq.1 vq.2 hpc (Fifo.receive_eq_some.mp hr)
  | shift =>
    simp only [hpc, Option.some.injEq] at h
    exact h ▸ .shift hpc
  | read =>
    simp only [hpc, Option.some.injEq] at h
    exact h ▸ .read hpc
  | sum i =>
    simp only [hpc] at h
    split at h
    · next hlt =>
      split at h
      · next hi => exact Option.some.inj h ▸ .add i hi hpc hlt
      · next hi => exact Option.some.inj h ▸ .outside i hpc hlt hi
    · next hlt => exact Option.some.inj h ▸ .summed i hpc hlt
  | divide =>
    simp only [hpc] at h
    split at h
    · next hN => exact Option.some.inj h ▸ .divideByZero hpc hN
    · next hN => exact Option.some.inj h ▸ .divide hpc hN
  | send =>
    simp only [hpc] at h
    cases hs : p.xDisplayQueue.send p.receiver.filter with
    | none => simp [hs] at h
    | some q =>
      simp only [hs, Option.some.injEq] at h
      obtain ⟨hroom, hq⟩ := Fifo.send_eq_some.mp hs
      exact h ▸ .send q hpc hroom hq
  | fault => simp [hpc] at h

theorem display_step {p p' : State} (h : vTaskDisplay p = some p') : DisplayStep p p' := by
  unfold vTaskDisplay at h
  cases hpc : p.display.pc with
  | splash n =>
    cases n with
    | zero =>
      simp only [hpc, Option.some.injEq] at h
      exact h ▸ .splash 0 .receive hpc (.inl rfl)
    | succ n =>
      simp only [hpc, Option.some.injEq] at h
      exact h ▸ .splash (n + 1) (.splash n) hpc (.inr ⟨n, rfl⟩)
  | receive =>
    simp only [hpc] at h
    cases hr : p.xDisplayQueue.receive with
    | none => simp [hr] at h
    | some vq =>
      simp only [hr, Option.some.injEq] at h
      exact h ▸ .receive vq.1 vq.2 hpc (Fifo.receive_eq_some.mp hr)
  | draw =>
    simp only [hpc, Option.some.injEq] at h
    exact h ▸ .draw hpc

end WindowFilter.Pipeline
