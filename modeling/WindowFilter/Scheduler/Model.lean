import WindowFilter.Lib.Steps
import WindowFilter.Scheduler.Events
import WindowFilter.Scheduler.Delayed

/- The scheduler (`Source/tasks.c`, `portable/GCC/ARM_CM3/port.c`) for any tasks `τ` with
   fixed priorities and any event lists `ε` (two for each queue). One step is a critical
   section of the running task's kernel call, an interrupt, or the PendSV exception that
   switches tasks; any of these may come next as long as it is enabled.

   The configuration is the one of `FreeRTOSConfig.h`: preemption and time slices, 32-bit
   ticks, no suspended list (`INCLUDE_vTaskSuspend` is 0), one core. What a task does
   between its kernel calls is left open, and so is which task an interrupt wakes.

   `ticks` is a history: the ticks `xTaskIncrementTick` has counted. -/
namespace WindowFilter.Scheduler
open Steps

/-- Where a task stands: in its own code or at the start of a kernel call, between the two
halves of `vTaskPlaceOnEventList`, or at a `taskYIELD_WITHIN_API` it has come to. -/
inductive Pc where
  | running
  | placed (xTicksToWait : UInt32)
  | yielding
  deriving DecidableEq, Repr

/-- `pendSV` is the pending bit of the exception. -/
structure State (τ ε : Type) (uxPriority : τ → Priority) where
  pxCurrentTCB : τ
  ready : ReadyLists τ uxPriority
  delayed : DelayedLists τ
  events : EventLists τ ε
  xTasksWaitingTermination : List τ
  uxCurrentNumberOfTasks : Nat
  uxDeletedTasksWaitingCleanUp : Nat
  uxSchedulerSuspended : Nat
  xPendedTicks : UInt32
  xYieldPending : Bool
  pendSV : Bool
  pc : τ → Pc
  ulRunTimeCounter : τ → UInt32
  ulTaskSwitchedInTime : UInt32
  ticks : Nat

variable {τ ε : Type} {uxPriority : τ → Priority}

/-! ## The start -/

/-- `prvAddNewTaskToReadyList` on the first task. -/
def firstTask (t : τ) : State τ ε uxPriority where
  pxCurrentTCB := t
  ready := ReadyLists.empty.prvAddTaskToReadyList t
  delayed := DelayedLists.start
  events := EventLists.empty
  xTasksWaitingTermination := []
  uxCurrentNumberOfTasks := 1
  uxDeletedTasksWaitingCleanUp := 0
  uxSchedulerSuspended := 0
  xPendedTicks := 0
  xYieldPending := false
  pendSV := false
  pc := fun _ => .running
  ulRunTimeCounter := fun _ => 0
  ulTaskSwitchedInTime := 0
  ticks := 0

/-- `prvAddNewTaskToReadyList` on a further one, before the scheduler runs. -/
def prvAddNewTaskToReadyList (s : State τ ε uxPriority) (t : τ) : State τ ε uxPriority :=
  { s with uxCurrentNumberOfTasks := s.uxCurrentNumberOfTasks + 1,
           pxCurrentTCB := if uxPriority s.pxCurrentTCB ≤ uxPriority t then t else s.pxCurrentTCB,
           ready := s.ready.prvAddTaskToReadyList t }

/-- The scheduler has started with the tasks `t` and `ts`, created in this order. -/
def start (t : τ) (ts : List τ) : State τ ε uxPriority := ts.foldl prvAddNewTaskToReadyList (firstTask t)

variable [DecidableEq τ] [DecidableEq ε]

/-! ## The kernel's functions -/

def prvAddTaskToReadyList (t : τ) (s : State τ ε uxPriority) : State τ ε uxPriority :=
  { s with ready := s.ready.prvAddTaskToReadyList t }

/-- A blocked task becomes ready: `listREMOVE_ITEM( &( pxTCB->xStateListItem ) )` and
`prvAddTaskToReadyList( pxTCB )`. -/
def readyTask (t : τ) (s : State τ ε uxPriority) : State τ ε uxPriority :=
  prvAddTaskToReadyList t { s with delayed := s.delayed.remove t }

/-- `xTaskRemoveFromEventList` on the list `l`, of which `t` is the first, and its result. -/
def xTaskRemoveFromEventList (t : τ) (s : State τ ε uxPriority) : State τ ε uxPriority × Bool :=
  let s := if s.uxSchedulerSuspended = 0 then readyTask t { s with events := s.events.remove t }
    else { s with events := s.events.hold t }
  if uxPriority s.pxCurrentTCB < uxPriority t then ({ s with xYieldPending := true }, true) else (s, false)

def prvAddCurrentTaskToDelayedList (xTicksToWait : UInt32) (s : State τ ε uxPriority) : State τ ε uxPriority :=
  { s with ready := s.ready.remove s.pxCurrentTCB,
           delayed := s.delayed.prvAddCurrentTaskToDelayedList s.pxCurrentTCB xTicksToWait }

/-- What the loop of `xTaskIncrementTick` does with the tasks it takes off the delayed list,
and whether one of them is to run at once. -/
def unblockTasks : List τ → State τ ε uxPriority → State τ ε uxPriority × Bool
  | [], s => (s, false)
  | t :: ts, s =>
    let s := prvAddTaskToReadyList t { s with events := s.events.remove t }
    let r := unblockTasks ts s
    (r.1, decide (uxPriority s.pxCurrentTCB < uxPriority t) || r.2)

def xTaskIncrementTick (s : State τ ε uxPriority) : State τ ε uxPriority × Bool :=
  if s.uxSchedulerSuspended = 0 then
    let d := s.delayed.xTaskIncrementTick
    let r := unblockTasks d.1 { s with delayed := d.2, ticks := s.ticks + 1 }
    let s := r.1
    -- tasks of equal priority share the processor
    let shared := decide (1 < (s.ready.pxReadyTasksLists (uxPriority s.pxCurrentTCB)).items.length)
    (s, r.2 || shared || s.xYieldPending)
  else ({ s with xPendedTicks := s.xPendedTicks + 1 }, false)

def vTaskSuspendAll (s : State τ ε uxPriority) : State τ ε uxPriority :=
  { s with uxSchedulerSuspended := s.uxSchedulerSuspended + 1 }

/-- The first loop of `xTaskResumeAll`, over the tasks in `xPendingReadyList`. -/
def movePending : List τ → State τ ε uxPriority → State τ ε uxPriority
  | [], s => s
  | t :: ts, s =>
    let s := readyTask t { s with events := s.events.remove t }
    movePending ts { s with
      xYieldPending := s.xYieldPending || decide (uxPriority s.pxCurrentTCB < uxPriority t) }

/-- The second, over the ticks that came while the scheduler was suspended. -/
def countPended : Nat → State τ ε uxPriority → State τ ε uxPriority
  | 0, s => s
  | n + 1, s =>
    let r := xTaskIncrementTick s
    countPended n { r.1 with xYieldPending := r.1.xYieldPending || r.2 }

/-- `xTaskResumeAll`, and whether it has yielded. -/
def xTaskResumeAll (s : State τ ε uxPriority) : State τ ε uxPriority × Bool :=
  let s := { s with uxSchedulerSuspended := s.uxSchedulerSuspended - 1 }
  if s.uxSchedulerSuspended = 0 ∧ 0 < s.uxCurrentNumberOfTasks then
    let pending := s.events.lists .xPendingReadyList
    let s := movePending pending s
    let s := if pending = [] then s else { s with delayed := s.delayed.prvResetNextTaskUnblockTime }
    let s := { countPended s.xPendedTicks.toNat s with xPendedTicks := 0 }
    if s.xYieldPending then ({ s with pendSV := true }, true) else (s, false)
  else (s, false)

/-- `vTaskSwitchContext`: no result where `taskSELECT_HIGHEST_PRIORITY_TASK` has none. -/
def vTaskSwitchContext (s : State τ ε uxPriority) : Option (State τ ε uxPriority) :=
  if s.uxSchedulerSuspended ≠ 0 then some { s with xYieldPending := true }
  else
    -- portGET_RUN_TIME_COUNTER_VALUE() is the tick count
    let ulTotalRunTime := s.delayed.xTickCount
    let counter := s.ulRunTimeCounter s.pxCurrentTCB
    s.ready.taskSELECT_HIGHEST_PRIORITY_TASK.map fun r =>
      { s with
        xYieldPending := false
        ulRunTimeCounter :=
          if ulTotalRunTime > s.ulTaskSwitchedInTime then
            Function.update s.ulRunTimeCounter s.pxCurrentTCB (counter + (ulTotalRunTime - s.ulTaskSwitchedInTime))
          else s.ulRunTimeCounter
        ulTaskSwitchedInTime := ulTotalRunTime
        pxCurrentTCB := r.1
        ready := r.2 }

/-- `vTaskDelete( NULL )`, up to its yield. -/
def vTaskDelete (s : State τ ε uxPriority) : State τ ε uxPriority :=
  let t := s.pxCurrentTCB
  { s with ready := s.ready.remove t,
           events := s.events.remove t,
           xTasksWaitingTermination := s.xTasksWaitingTermination ++ [t],
           uxDeletedTasksWaitingCleanUp := s.uxDeletedTasksWaitingCleanUp + 1 }

/-- A pass of `prvCheckTasksWaitingTermination`'s loop. -/
def prvCheckTasksWaitingTermination (s : State τ ε uxPriority) : State τ ε uxPriority :=
  { s with xTasksWaitingTermination := s.xTasksWaitingTermination.tail,
           uxCurrentNumberOfTasks := s.uxCurrentNumberOfTasks - 1,
           uxDeletedTasksWaitingCleanUp := s.uxDeletedTasksWaitingCleanUp - 1 }

/-! ## Steps -/

/-- The tick interrupt, PendSV, a wake of the first task of an event list by a queue
operation (of the running task or of an interrupt) or by `prvUnlockQueue`, or a step of the
running task: `vTaskSuspendAll`; `xTaskResumeAll`, with or without a yield after it where it
has not yielded itself; `prvAddCurrentTaskToDelayedList` of `vTaskDelay` and
`xTaskDelayUntil`; the two halves of `vTaskPlaceOnEventList`; `taskYIELD`; `vTaskDelete`; and
the idle task's clean-up. -/
inductive Event (ε : Type) where
  | tick
  | pendSV
  | wake (l : ε)
  | unlock (l : ε)
  | suspend
  | resume (thenYield : Bool)
  | delay (xTicksToDelay : UInt32)
  | place (l : ε) (xTicksToWait : UInt32)
  | delayPlaced
  | yield
  | delete
  | cleanUp
  deriving DecidableEq, Repr

def setPc (pc : Pc) (s : State τ ε uxPriority) : State τ ε uxPriority :=
  { s with pc := Function.update s.pc s.pxCurrentTCB pc }

/-- The running task is at `pc`, and PendSV does not come before its next instruction. -/
def At (s : State τ ε uxPriority) (pc : Pc) : Prop := s.pendSV = false ∧ s.pc s.pxCurrentTCB = pc

instance (s : State τ ε uxPriority) (pc : Pc) : Decidable (At s pc) := inferInstanceAs (Decidable (_ ∧ _))

/-- The running task may block for `xTicksToWait`: it is ready, in a suspended section, in no
event list (`Good.waits`), and not the idle task, which never blocks; every caller has ruled
out 0. -/
def MayBlock (idle : τ) (s : State τ ε uxPriority) (xTicksToWait : UInt32) : Prop :=
  At s .running ∧ 0 < s.uxSchedulerSuspended ∧ 0 < xTicksToWait ∧ s.ready.Ready s.pxCurrentTCB ∧
    s.pxCurrentTCB ≠ idle ∧ s.events.pxContainer s.pxCurrentTCB = none

instance (idle : τ) (s : State τ ε uxPriority) (xTicksToWait : UInt32) : Decidable (MayBlock idle s xTicksToWait) :=
  inferInstanceAs (Decidable (_ ∧ _))

def step (idle : τ) (s : State τ ε uxPriority) : Event ε → Option (State τ ε uxPriority)
  | .tick =>
    let r := xTaskIncrementTick s
    some { r.1 with pendSV := r.1.pendSV || r.2 }
  | .pendSV => if s.pendSV then vTaskSwitchContext { s with pendSV := false } else none
  | .wake l =>
    match s.events.lists (.event l) with
    | t :: _ =>
      let r := xTaskRemoveFromEventList t s
      some { r.1 with pendSV := r.1.pendSV || r.2 }
    | [] => none
  | .unlock l =>
    if 0 < s.uxSchedulerSuspended then
      match s.events.lists (.event l) with
      | t :: _ =>
        let r := xTaskRemoveFromEventList t s
        -- vTaskMissedYield()
        some { r.1 with xYieldPending := r.1.xYieldPending || r.2 }
      | [] => none
    else none
  | .suspend => if At s .running then some (vTaskSuspendAll s) else none
  | .resume thenYield =>
    -- a task that has blocked in the section yields after it
    if At s .running ∧ 0 < s.uxSchedulerSuspended ∧ (thenYield = true ∨ s.ready.Ready s.pxCurrentTCB) then
      let r := xTaskResumeAll s
      some (if thenYield && !r.2 then setPc .yielding r.1 else r.1)
    else none
  | .delay xTicksToDelay =>
    if MayBlock idle s xTicksToDelay then some (prvAddCurrentTaskToDelayedList xTicksToDelay s) else none
  | .place l xTicksToWait =>
    if h : MayBlock idle s xTicksToWait then
      some (setPc (.placed xTicksToWait) { s with events := s.events.insert uxPriority s.pxCurrentTCB l h.2.2.2.2.2 })
    else none
  | .delayPlaced =>
    match s.pc s.pxCurrentTCB with
    | .placed xTicksToWait =>
      if s.pendSV then none else some (setPc .running (prvAddCurrentTaskToDelayedList xTicksToWait s))
    | _ => none
  | .yield =>
    if At s .running ∨ At s .yielding then some (setPc .running { s with pendSV := true }) else none
  | .delete =>
    if At s .running ∧ s.uxSchedulerSuspended = 0 ∧ s.pxCurrentTCB ≠ idle then
      some (setPc .yielding (vTaskDelete s))
    else none
  | .cleanUp =>
    if At s .running ∧ s.pxCurrentTCB = idle ∧ 0 < s.uxDeletedTasksWaitingCleanUp then
      some (prvCheckTasksWaitingTermination s)
    else none

end WindowFilter.Scheduler
