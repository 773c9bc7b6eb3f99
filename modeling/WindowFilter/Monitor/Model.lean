import WindowFilter.Lib.Steps
import WindowFilter.Lib.Heap
import WindowFilter.Common.IntToString
import WindowFilter.Uart.Tx

/- The monitor: `vTaskMonitor` counts the tasks, allocates an array for their states and
   then, again and again, has the kernel fill the array, prints a report and frees the
   array. One step is one call of the loop, or one pass of the loop over the tasks; a label
   says what the rest of the system answers. Memory is a `Heap`, so that a use of the array
   after its end is a state one can see.

   The report is kept as text (`uart`), number for number through `vIntToString` and the
   one buffer of the task. -/
namespace WindowFilter.Monitor
open Steps Common

def MAX_TASKS : Nat := 10
def DEFAULT_SIZE_BUFFERS : Nat := 64

inductive eTaskState where
  | eRunning
  | eReady
  | eBlocked
  | eSuspended
  | eDeleted
  | eInvalid
  deriving DecidableEq, Repr

/-- The fields of an entry that the monitor reads. -/
structure TaskStatus_t where
  pcTaskName : List UInt8
  xTaskNumber : UInt32
  eCurrentState : eTaskState
  uxCurrentPriority : UInt32
  ulRunTimeCounter : UInt32
  usStackHighWaterMark : UInt32
  deriving DecidableEq, Repr

def getStateName : eTaskState → String
  | .eRunning => "Running"
  | .eReady => "Ready"
  | .eBlocked => "Blocked"
  | .eSuspended => "Suspended"
  | .eDeleted => "Deleted"
  | .eInvalid => "Unknown"

/-- What `uxTaskGetSystemState` writes to an array said to have room for `uxArraySize`:
an entry for each task, or nothing at all. -/
def uxTaskGetSystemState (uxArraySize : Nat) (tasks : List TaskStatus_t) : List TaskStatus_t :=
  if uxArraySize ≥ tasks.length then tasks else []

/-! ## The report -/

/-- The string in a buffer: what is before the terminating null. -/
def cString (str : List UInt8) : List UInt8 := str.takeWhile (· ≠ 0)

/-- A number converted to an `int` and printed: `vIntToString(x, buffer_string)` and
`sendUART(buffer_string)`. -/
def printInt (x : UInt32) (buffer_string : List UInt8) : Option (List UInt8 × List UInt8) :=
  (vIntToString (int32 x.toNat) buffer_string).map fun o => (cString o.str, o.str)

def percentCPU (ulRunTimeCounter ulTotalRunTime : UInt32) : UInt32 :=
  if ulTotalRunTime > 0 then ulRunTimeCounter * 100 / ulTotalRunTime else 0

/-- The part of the report on one task, and the texts of its numbers. -/
structure Report where
  name : List UInt8
  priority : List UInt8
  state : String
  stackFree : List UInt8
  number : List UInt8
  usage : List UInt8

def Report.text (r : Report) : List UInt8 :=
  Tx.chars "\nTask: " ++ r.name ++ Tx.chars "\n  Priority: " ++ r.priority ++
    Tx.chars "\n  State: " ++ Tx.chars r.state ++ Tx.chars "\n  Stack Free: " ++ r.stackFree ++
    Tx.chars " words" ++ Tx.chars "\n  Task Number: " ++ r.number ++
    Tx.chars "\n  CPU Usage: " ++ r.usage ++ Tx.chars " %" ++
    Tx.chars "\n  ----------------------------------------"

/-- The body of the loop over the tasks, for the entry `t`. -/
def reportTask (t : TaskStatus_t) (ulTotalRunTime : UInt32) (buffer_string : List UInt8) :
    Option (Report × List UInt8) := do
  let (priority, buffer_string) ← printInt t.uxCurrentPriority buffer_string
  let (stackFree, buffer_string) ← printInt t.usStackHighWaterMark buffer_string
  let (number, buffer_string) ← printInt t.xTaskNumber buffer_string
  let (usage, buffer_string) ← printInt (percentCPU t.ulRunTimeCounter ulTotalRunTime) buffer_string
  some (⟨t.pcTaskName, priority, getStateName t.eCurrentState, stackFree, number, usage⟩, buffer_string)

/-! ## The task -/

/-- The next statement of `vTaskMonitor`: `test` is the test of the pointer at the head of
the loop, `report i` the test of the loop over the tasks for `i`. -/
inductive MonitorPc where
  | number
  | malloc
  | test
  | getSystemState
  | report (i : Nat)
  | free
  | delay
  | deleted
  deriving DecidableEq, Repr

/-- The task and the memory. `entries` is what the kernel has last written through the
pointer, and `calls` counts the calls of `uxTaskGetSystemState`. -/
structure State where
  pc : MonitorPc
  uxArraySize : Nat
  pxTaskStatusArray : Option Nat
  uxTasksReturned : Nat
  ulTotalRunTime : UInt32
  buffer_string : List UInt8
  heap : Heap
  entries : List TaskStatus_t
  uart : List UInt8
  calls : Nat
  deriving DecidableEq

/-- The start of the task, whatever its locals hold. -/
def init (ulTotalRunTime : UInt32) (buffer_string : List UInt8) : State where
  pc := .number
  uxArraySize := 0
  pxTaskStatusArray := none
  uxTasksReturned := 0
  ulTotalRunTime := ulTotalRunTime
  buffer_string := buffer_string
  heap := Heap.empty
  entries := []
  uart := []
  calls := 0

/-- What the system answers to the next call: the number of tasks, whether there is
memory, the states of the tasks and the run time so far; or nothing of interest. -/
inductive Event where
  | tasks (n : Nat)
  | memory (available : Bool)
  | states (tasks : List TaskStatus_t) (runTime : UInt32)
  | next
  deriving DecidableEq

def step (s : State) : Event → Option State
  | .tasks n => if s.pc = .number then some { s with uxArraySize := n, pc := .malloc } else none
  | .memory available =>
    if s.pc = .malloc then
      if available then
        some { s with heap := (s.heap.alloc s.uxArraySize).1,
                      pxTaskStatusArray := some (s.heap.alloc s.uxArraySize).2, pc := .test }
      else some { s with pc := .deleted }
    else none
  | .states tasks runTime =>
    if s.pc = .getSystemState then
      let written := uxTaskGetSystemState MAX_TASKS tasks
      some { s with entries := written, uxTasksReturned := written.length,
                    ulTotalRunTime := if MAX_TASKS ≥ tasks.length then runTime else s.ulTotalRunTime,
                    uart := s.uart ++ Tx.chars "\n\n[INFO] | vTaskMonitor | System Task Statistics:\n" ++
                      Tx.chars "==============================================\n",
                    calls := s.calls + 1, pc := .report 0 }
    else none
  | .next =>
    match s.pc with
    | .test =>
      match s.pxTaskStatusArray with
      | some _ => some { s with pc := .getSystemState }
      | none => some { s with uart := s.uart ++ Tx.chars "\n[ERROR] | vTaskMonitor | Memory allocation failed\n",
                              pc := .delay }
    | .report i =>
      if i < s.uxTasksReturned then do
        let t ← s.entries[i]?
        let (r, buffer_string) ← reportTask t s.ulTotalRunTime s.buffer_string
        some { s with uart := s.uart ++ r.text, buffer_string := buffer_string, pc := .report (i + 1) }
      else do
        let (total, buffer_string) ← printInt (UInt32.ofNat s.uxTasksReturned) s.buffer_string
        some { s with uart := s.uart ++ Tx.chars "\n\nTotal Tasks: " ++ total ++ Tx.chars "\n",
                      buffer_string := buffer_string, pc := .free }
    | .free =>
      match s.pxTaskStatusArray with
      | some p => some { s with heap := s.heap.free p, pc := .delay }
      | none => some { s with pc := .delay }
    | .delay => some { s with pc := .test }
    | .number | .malloc | .getSystemState | .deleted => none

end WindowFilter.Monitor
