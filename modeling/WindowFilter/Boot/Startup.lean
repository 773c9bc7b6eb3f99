import WindowFilter.Lib.Steps
import WindowFilter.Kernel.Model

/- From `main` to the tasks. `main` is a list of statements, as far down as the critical
   sections of the kernel; between any two of them a byte may reach `vUART_ISR`, if the
   interrupt of UART0 is enabled and `BASEPRI` does not mask it. The port starts with a
   critical nesting far from 0, so that the first critical section masks the interrupt
   until the first task starts. The tasks run behind `main`, one queue operation a step.

   * `Ordered`: what holds at every statement of `main`, checked along the list.
   * `set_before_use_iff`: the queues exist when they are used, but for the bytes that
     arrive before that first critical section. -/
namespace WindowFilter.Boot
open Steps Kernel

def configKERNEL_INTERRUPT_PRIORITY : Nat := 255
def configMAX_SYSCALL_INTERRUPT_PRIORITY : Nat := 191

inductive QueueHandle where
  | xSensorQueue
  | xDisplayQueue
  | xUpdateNQueue
  deriving DecidableEq, Repr

/-! ## The statements of `main` -/

/-- The calls that touch neither the interrupt nor the kernel. -/
inductive Device where
  | SysCtlClockSet
  | SysCtlPeripheralEnable
  | GPIODirModeSet
  | UARTConfigSet
  | setLcrH
  | OSRAMInit
  | vConfigureTimerForRunTimeStats
  deriving DecidableEq, Repr

inductive Stmt where
  | device (call : Device)
  /-- `IntPrioritySet(INT_UART0, priority)` -/
  | IntPrioritySet (priority : Nat)
  /-- `IntEnable(INT_UART0)` -/
  | IntEnable
  /-- `HWREG(UART0_BASE + UART_O_IM) |= UART_INT_RX` -/
  | enableRx
  | vPortEnterCritical
  | vPortExitCritical
  /-- The assignment of what `xQueueCreate` returns. -/
  | setHandle (h : QueueHandle)
  | portDISABLE_INTERRUPTS
  /-- `uxCriticalNesting = 0` in `xPortStartScheduler`. -/
  | clearNesting
  | prvPortStartFirstTask
  deriving DecidableEq, Repr

def prvSetupHardware : List Stmt :=
  [.device .SysCtlClockSet, .device .SysCtlPeripheralEnable, .device .SysCtlPeripheralEnable,
   .device .GPIODirModeSet, .device .UARTConfigSet, .device .setLcrH,
   .IntPrioritySet configKERNEL_INTERRUPT_PRIORITY, .IntEnable, .enableRx,
   .IntPrioritySet configKERNEL_INTERRUPT_PRIORITY, .IntEnable, .device .OSRAMInit]

/-- `pvPortMalloc` resumes the scheduler in a critical section. -/
def pvPortMalloc : List Stmt := [.vPortEnterCritical, .vPortExitCritical]

/-- A stack, a control block, and the task put in its ready list. -/
def xTaskCreate : List Stmt := pvPortMalloc ++ pvPortMalloc ++ [.vPortEnterCritical, .vPortExitCritical]

/-- A queue, reset in a critical section, and its handle. -/
def xQueueCreate (h : QueueHandle) : List Stmt :=
  pvPortMalloc ++ [.vPortEnterCritical, .vPortExitCritical, .setHandle h]

/-- The idle task is created first. -/
def vTaskStartScheduler : List Stmt :=
  xTaskCreate ++ [.portDISABLE_INTERRUPTS, .clearNesting, .prvPortStartFirstTask]

def main : List Stmt :=
  prvSetupHardware ++ [.device .vConfigureTimerForRunTimeStats] ++
    xTaskCreate ++ xTaskCreate ++ xTaskCreate ++ xTaskCreate ++ xTaskCreate ++
    xQueueCreate .xSensorQueue ++ xQueueCreate .xDisplayQueue ++ xQueueCreate .xUpdateNQueue ++
    vTaskStartScheduler

/-! ## The processor and the port -/

/-- What `main` changes. `sections` counts the critical sections it has entered. -/
structure Cpu where
  uartPriority : Nat
  intEnabled : Bool
  rxEnabled : Bool
  basepri : Nat
  uxCriticalNesting : UInt32
  created : List QueueHandle
  started : Bool
  sections : Nat
  deriving DecidableEq, Repr

def Cpu.init : Cpu where
  uartPriority := 0
  intEnabled := false
  rxEnabled := false
  basepri := 0
  uxCriticalNesting := 0xaaaaaaaa
  created := []
  started := false
  sections := 0

def Cpu.exec (c : Cpu) : Stmt → Cpu
  | .device _ => c
  | .IntPrioritySet priority => { c with uartPriority := priority }
  | .IntEnable => { c with intEnabled := true }
  | .enableRx => { c with rxEnabled := true }
  | .vPortEnterCritical =>
    { c with basepri := configMAX_SYSCALL_INTERRUPT_PRIORITY, uxCriticalNesting := c.uxCriticalNesting + 1,
             sections := c.sections + 1 }
  | .vPortExitCritical =>
    { c with uxCriticalNesting := c.uxCriticalNesting - 1,
             basepri := if c.uxCriticalNesting - 1 = 0 then 0 else c.basepri }
  | .setHandle h => { c with created := c.created ++ [h] }
  | .portDISABLE_INTERRUPTS => { c with basepri := configMAX_SYSCALL_INTERRUPT_PRIORITY }
  | .clearNesting => { c with uxCriticalNesting := 0 }
  -- the supervisor call starts the first task with nothing masked
  | .prvPortStartFirstTask => { c with basepri := 0, started := true }

/-- A received byte interrupts: the interrupt is enabled, and `BASEPRI`, when it is not 0,
masks its own priority and the lower ones, which are the greater numbers. -/
def Cpu.interrupts (c : Cpu) : Prop :=
  c.intEnabled = true ∧ c.rxEnabled = true ∧ (c.basepri = 0 ∨ c.uartPriority < c.basepri)

instance (c : Cpu) : Decidable c.interrupts := inferInstanceAs (Decidable (_ ∧ _))

/-! ## The system -/

/-- The queue operations in the loop of a task, by their queues. -/
def loop : Task → List QueueHandle
  | .sensor => [.xSensorQueue]
  | .receiver => [.xSensorQueue, .xDisplayQueue]
  | .display => [.xDisplayQueue]
  | .updateN => [.xUpdateNQueue]
  | .monitor => []

/-- `rest` is what is left of `main`, `uses t` the number of queue operations of a task so
far. After `fault`, a use of a handle that has not been set, the language promises nothing. -/
structure State where
  cpu : Cpu
  rest : List Stmt
  uses : Task → Nat
  fault : Bool

def init : State := ⟨Cpu.init, main, fun _ => 0, false⟩

/-- The queue of the next operation of a task. -/
def nextUse (w : State) (t : Task) : Option QueueHandle := (loop t)[w.uses t % (loop t).length]?

/-- `xQueueSend` or `xQueueReceive` on a handle. -/
def useQueue (h : QueueHandle) (w : State) : State := if h ∈ w.cpu.created then w else { w with fault := true }

/-- The bytes on which `vUART_ISR` sends. -/
def IsCommand (c : UInt8) : Prop := c = Window.byteU ∨ c = Window.byteD

instance (c : UInt8) : Decidable (IsCommand c) := inferInstanceAs (Decidable (_ ∨ _))

def vUART_ISR (c : UInt8) (w : State) : State := if IsCommand c then useQueue .xUpdateNQueue w else w

/-- The next statement of `main`, a run of the handler, or the next queue operation of a task. -/
inductive Event where
  | main
  | isr (c : UInt8)
  | task (t : Task)
  deriving DecidableEq, Repr

def step (w : State) (e : Event) : Option State :=
  if w.fault then none
  else match e with
    | .main =>
      match w.rest with
      | [] => none
      | s :: rest => some { w with cpu := w.cpu.exec s, rest := rest }
    | .isr c => if w.cpu.interrupts then some (vUART_ISR c w) else none
    | .task t =>
      if w.cpu.started then
        (nextUse w t).map fun h =>
          { useQueue h w with uses := fun u => if u = t then w.uses u + 1 else w.uses u }
      else none

/-! ## Along `main` -/

/-- The next step uses a queue only if its handle has been set. -/
def SetBeforeUse (w : State) : Event → Prop
  | .main => True
  | .isr c => w.cpu.interrupts → IsCommand c → .xUpdateNQueue ∈ w.cpu.created
  | .task t => w.cpu.started = true → ∀ h, nextUse w t = some h → h ∈ w.cpu.created

/-- A command is handled only after `main` has entered a critical section. -/
def AfterFirstSection (w : State) : Event → Prop
  | .isr c => w.cpu.interrupts → IsCommand c → w.cpu.sections ≠ 0
  | .main | .task _ => True

/-- The order of the start: nothing has been created before the first critical section, the
interrupt is masked from then until the first task starts, and then every queue is there. -/
def Ordered (c : Cpu) : Prop :=
  (c.sections = 0 → c.created = []) ∧
  (c.interrupts → c.sections = 0 ∨ c.started = true) ∧
  (c.started = true → .xSensorQueue ∈ c.created ∧ .xDisplayQueue ∈ c.created ∧ .xUpdateNQueue ∈ c.created)

instance (c : Cpu) : Decidable (Ordered c) := inferInstanceAs (Decidable (_ ∧ _ ∧ _))

/-- One statement of `main`, as a step of its own. -/
def mainStep (c : Cpu) (s : Stmt) : Option Cpu := some (c.exec s)

/-- `main` is in order at each of its statements. -/
theorem main_ordered : Always mainStep Ordered Cpu.init main := by decide +kernel

/-- What is left of `main` will be in order. -/
def Inv (w : State) : Prop := Always mainStep Ordered w.cpu w.rest

theorem Ordered.mem {c : Cpu} (ho : Ordered c) (hstarted : c.started = true) (h : QueueHandle) : h ∈ c.created := by
  obtain ⟨hsensor, hdisplay, hupdate⟩ := ho.2.2 hstarted
  cases h
  · exact hsensor
  · exact hdisplay
  · exact hupdate

theorem ordered_of_always {c : Cpu} {rest : List Stmt} (h : Always mainStep Ordered c rest) : Ordered c := by
  cases rest with
  | nil => exact h
  | cons s rest => exact h.1

/-! ## One step -/

theorem useQueue_cpu (h : QueueHandle) (w : State) : (useQueue h w).cpu = w.cpu ∧ (useQueue h w).rest = w.rest := by
  rw [useQueue]
  split_ifs <;> exact ⟨rfl, rfl⟩

theorem inv_of_cpu {w w' : State} (hi : Inv w) (hcpu : w'.cpu = w.cpu ∧ w'.rest = w.rest) : Inv w' := by
  rw [Inv, hcpu.1, hcpu.2]
  exact hi

theorem inv_step {w w' : State} {e : Event} (hi : Inv w) (h : step w e = some w') : Inv w' := by
  cases e with
  | main =>
    simp only [step] at h
    split_ifs at h
    cases hrest : w.rest with
    | nil => simp [hrest] at h
    | cons s rest =>
      simp only [hrest, Option.some.injEq] at h
      subst h
      rw [Inv, hrest] at hi
      exact hi.2 _ rfl
  | isr c =>
    simp only [step] at h
    split_ifs at h
    obtain rfl := Option.some.inj h
    apply inv_of_cpu hi
    rw [vUART_ISR]
    split_ifs
    · exact useQueue_cpu _ w
    · exact ⟨rfl, rfl⟩
  | task t =>
    simp only [step] at h
    split_ifs at h
    obtain ⟨q, -, rfl⟩ := Option.map_eq_some_iff.mp h
    exact inv_of_cpu hi (useQueue_cpu q w)

/-- In order, a command finds its queue exactly when it is not too early, and a task always
finds its own. -/
theorem setBeforeUse_iff {w : State} (hi : Inv w) (e : Event) : SetBeforeUse w e ↔ AfterFirstSection w e := by
  have ho := ordered_of_always hi
  cases e with
  | main => exact Iff.rfl
  | task t => exact ⟨fun _ => trivial, fun _ hstarted h _ => ho.mem hstarted h⟩
  | isr c =>
    refine ⟨?_, ?_⟩
    · intro hset hint hc hzero
      have hmem := hset hint hc
      rw [ho.1 hzero] at hmem
      cases hmem
    · intro hafter hint hc
      obtain hzero | hstarted := ho.2.1 hint
      · exact absurd hzero (hafter hint hc)
      · exact ho.mem hstarted _

/-! ## Runs -/

/-- **The queues exist when they are used, but for an early command.** In every run from
the call of `main`, with bytes at any time and any schedule of the tasks: every queue
operation of the handler and of the tasks is on a handle that has been set, if and only
if no `'U'` or `'D'` is handled before `main` enters its first critical section. -/
theorem set_before_use_iff (es : List Event) :
    AllSteps step SetBeforeUse init es ↔ AllSteps step AfterFirstSection init es := by
  apply allSteps_iff (I := Inv)
  · intro w e w' hi _ hs
    exact inv_step hi hs
  · intro w e hi
    exact setBeforeUse_iff hi e
  · exact main_ordered

/-- After the start a command and the task that waits for it find the queue. -/
example : (exec step init (List.replicate main.length .main ++ [.isr Window.byteU, .task .updateN])).isSome := by
  decide +kernel

/-- `main` up to `OSRAMInit`, and a `'U'` that comes during it. -/
def earlyCommand : List Event := List.replicate 11 .main ++ [.isr Window.byteU]

/-- The handler sends to a queue that has not been created. -/
theorem early_command_lost : ¬ AllSteps step SetBeforeUse init earlyCommand := by
  have hrun : exec step init (List.replicate 11 .main) =
      some ((exec step init (List.replicate 11 .main)).getD init) := rfl
  intro h
  have hmem := ((allSteps_append hrun).mp h).2.1 (by decide) (by decide)
  exact absurd hmem (by decide)

end WindowFilter.Boot
