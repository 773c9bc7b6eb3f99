import WindowFilter.Kernel.Model
import WindowFilter.Scheduler.Deadlines

/- The queues (`Source/queue.c`) on the scheduler. Any tasks send to any queues and receive
   from them, with any time-outs. A call of `xQueueGenericSend` or `xQueueReceive` is a
   sequence of short critical sections, one step each, between which interrupts come and,
   where the scheduler is not suspended, other tasks run. The scheduler is the one of
   `Scheduler.Model`: the event lists of the queues are its event lists, and what a call
   asks of `tasks.c` is a step of it.

   Interrupts use the `FromISR` functions, and pass `pxHigherPriorityTaskWoken` on to
   `portYIELD_FROM_ISR`; or `xQueueSend`, as `vUART_ISR` does, for which only the queue with
   room is modelled: with none the handler waits and does not return. `returned` is the
   history of the calls that have returned; a call returns with its last critical section. -/
namespace WindowFilter.Queues
open Steps
open Kernel (Queue_t queueUNLOCKED Leaving)
open Scheduler (Priority TimeOut_t)

inductive Waiting (κ : Type) where
  | xTasksWaitingToSend (xQueue : κ)
  | xTasksWaitingToReceive (xQueue : κ)
  deriving DecidableEq, Repr

/-- `xQueueGenericSend( xQueue, pvItemToQueue, .., queueSEND_TO_BACK )` or
`xQueueReceive( xQueue, .. )`. -/
inductive Request (κ α : Type) where
  | send (xQueue : κ) (pvItemToQueue : α)
  | receive (xQueue : κ)
  deriving DecidableEq, Repr

def Request.xQueue {κ α : Type} : Request κ α → κ
  | .send xQueue _ | .receive xQueue => xQueue

def Request.waitsIn {κ α : Type} : Request κ α → Waiting κ
  | .send xQueue _ => .xTasksWaitingToSend xQueue
  | .receive xQueue => .xTasksWaitingToReceive xQueue

/-- What a call returns; with `pdPASS` a receive has copied an item to `pvBuffer`. -/
inductive Result (α : Type) where
  | pdPASS (pvBuffer : Option α)
  | pdFAIL
  | errQUEUE_FULL
  | errQUEUE_EMPTY
  deriving DecidableEq, Repr

/-- What the call returns when it gives up. -/
def Request.refusal {κ α : Type} : Request κ α → Result α
  | .send _ _ => .errQUEUE_FULL
  | .receive _ => .errQUEUE_EMPTY

/-- The next critical section of a call. `look` is `prvIsQueueFull` or `prvIsQueueEmpty`,
`place` and `delay` are the halves of `vTaskPlaceOnEventList`. -/
inductive Pc where
  | check
  | suspend
  | lock
  | checkTimeOut
  | look
  | place
  | delay
  | unlockTx (a : Leaving)
  | unlockRx (a : Leaving)
  | resume (a : Leaving)
  | yield
  | lookTimedOut
  deriving DecidableEq, Repr

/-- A call with its local variables; `xTimeOut` is `none` while `xEntryTimeSet` is `pdFALSE`. -/
structure Call (κ α : Type) where
  request : Request κ α
  xTicksToWait : UInt32
  xTimeOut : Option TimeOut_t
  pc : Pc
  deriving DecidableEq, Repr

/-- The queue `q` has `spare q + 1` places. Its event lists are in `sched`. -/
structure State (τ κ α : Type) (uxPriority : τ → Priority) (spare : κ → Nat) where
  sched : Scheduler.State τ (Waiting κ) uxPriority
  queues : (q : κ) → Queue_t α Empty (spare q + 1)
  call : τ → Option (Call κ α)
  returned : List (Request κ α × Result α)

variable {τ κ α : Type} {uxPriority : τ → Priority} {spare : κ → Nat}

/-- The queues are created, and the scheduler has started with the tasks `t` and `ts`. -/
def start (junk : α) (t : τ) (ts : List τ) : State τ κ α uxPriority spare where
  sched := Scheduler.start t ts
  queues := fun q => Queue_t.create (spare q) junk
  call := fun _ => none
  returned := []

variable [DecidableEq τ] [DecidableEq κ]

/-! ## Waking -/

/-- Wake the first task of an event list, if there is one, and yield to it if it is to run
before the running task. -/
def wakeWaiting (l : Waiting κ) (s : Scheduler.State τ (Waiting κ) uxPriority) :
    Scheduler.State τ (Waiting κ) uxPriority :=
  match s.events.lists (.event l) with
  | [] => s
  | t :: _ =>
    let r := Scheduler.xTaskRemoveFromEventList t s
    { r.1 with pendSV := r.1.pendSV || r.2 }

/-- The loop of `prvUnlockQueue` over a lock count. -/
def wakeCounted (l : Waiting κ) : Nat → Scheduler.State τ (Waiting κ) uxPriority →
    Scheduler.State τ (Waiting κ) uxPriority
  | 0, s => s
  | n + 1, s =>
    match s.events.lists (.event l) with
    | [] => s
    | t :: _ =>
      let r := Scheduler.xTaskRemoveFromEventList t s
      -- vTaskMissedYield()
      wakeCounted l n { r.1 with xYieldPending := r.1.xYieldPending || r.2 }

def int8 (x : Int) : Int := (x + 128) % 256 - 128

/-- `prvIncrementQueueTxLock` and `prvIncrementQueueRxLock` -/
def prvIncrementQueueLock (cLock : Int) (uxNumberOfTasks : Nat) : Int :=
  if cLock % 4294967296 < uxNumberOfTasks then int8 (cLock + 1) else cLock

/-! ## Items in and out -/

omit [DecidableEq τ] in
/-- `prvCopyDataToQueue` -/
def enqueue (q : κ) (x : α) (s : State τ κ α uxPriority spare) (h : (s.queues q).uxMessagesWaiting < spare q + 1) :
    State τ κ α uxPriority spare :=
  { s with queues := Function.update s.queues q ((s.queues q).prvCopyDataToQueue x h) }

omit [DecidableEq τ] in
/-- `prvCopyDataFromQueue`, and one message less. The item is that of `takeFront`. -/
def dequeue (q : κ) (s : State τ κ α uxPriority spare) (h : 0 < (s.queues q).uxMessagesWaiting) :
    State τ κ α uxPriority spare :=
  { s with queues := Function.update s.queues q ((s.queues q).takeFront h).2 }

def wake (l : Waiting κ) (s : State τ κ α uxPriority spare) : State τ κ α uxPriority spare :=
  { s with sched := wakeWaiting l s.sched }

def xQueueGenericSendFromISR (q : κ) (x : α) (s : State τ κ α uxPriority spare) :
    State τ κ α uxPriority spare × Result α :=
  if h : (s.queues q).uxMessagesWaiting < spare q + 1 then
    let cTxLock := (s.queues q).cTxLock
    let s := enqueue q x s h
    if cTxLock = queueUNLOCKED then (wake (.xTasksWaitingToReceive q) s, .pdPASS none)
    else
      let cTxLock := prvIncrementQueueLock cTxLock s.sched.uxCurrentNumberOfTasks
      ({ s with queues := Function.update s.queues q { s.queues q with cTxLock := cTxLock } }, .pdPASS none)
  else (s, .errQUEUE_FULL)

def xQueueReceiveFromISR (q : κ) (s : State τ κ α uxPriority spare) : State τ κ α uxPriority spare × Result α :=
  if h : 0 < (s.queues q).uxMessagesWaiting then
    let cRxLock := (s.queues q).cRxLock
    let pvBuffer := ((s.queues q).takeFront h).1
    let s := dequeue q s h
    if cRxLock = queueUNLOCKED then (wake (.xTasksWaitingToSend q) s, .pdPASS (some pvBuffer))
    else
      let cRxLock := prvIncrementQueueLock cRxLock s.sched.uxCurrentNumberOfTasks
      ({ s with queues := Function.update s.queues q { s.queues q with cRxLock := cRxLock } }, .pdPASS (some pvBuffer))
  else (s, .pdFAIL)

omit [DecidableEq τ] [DecidableEq κ] in
def returns (r : Request κ α) (x : Result α) (s : State τ κ α uxPriority spare) : State τ κ α uxPriority spare :=
  { s with returned := s.returned ++ [(r, x)] }

/-! ## The calls of the tasks -/

omit [DecidableEq κ] in
/-- The running task's call goes on at `c`, or has returned. -/
def setCall (c : Option (Call κ α)) (s : State τ κ α uxPriority spare) : State τ κ α uxPriority spare :=
  { s with call := Function.update s.call s.sched.pxCurrentTCB c }

/-- The same after a step of the scheduler. -/
def goOn (idle : τ) (e : Scheduler.Event (Waiting κ)) (c : Option (Call κ α)) (s : State τ κ α uxPriority spare) :
    Option (State τ κ α uxPriority spare) :=
  (Scheduler.step idle s.sched e).map fun sched => { setCall c s with sched := sched }

omit [DecidableEq κ] in
def finish (c : Call κ α) (x : Result α) (s : State τ κ α uxPriority spare) : State τ κ α uxPriority spare :=
  returns c.request x (setCall none s)

omit [DecidableEq κ] in
/-- The queue is full, or empty: return at once or set out to wait. -/
def refuse (c : Call κ α) (s : State τ κ α uxPriority spare) : State τ κ α uxPriority spare :=
  if c.xTicksToWait = 0 then finish c c.request.refusal s
  else
    setCall (some { c with
      xTimeOut := some (c.xTimeOut.getD s.sched.delayed.vTaskInternalSetTimeOutState), pc := .suspend }) s

/-- The first critical section of the loop. -/
def check (c : Call κ α) (s : State τ κ α uxPriority spare) : State τ κ α uxPriority spare :=
  match c.request with
  | .send q x =>
    if h : (s.queues q).uxMessagesWaiting < spare q + 1 then
      finish c (.pdPASS none) (wake (.xTasksWaitingToReceive q) (enqueue q x s h))
    else refuse c s
  | .receive q =>
    if h : 0 < (s.queues q).uxMessagesWaiting then
      let pvBuffer := ((s.queues q).takeFront h).1
      finish c (.pdPASS (some pvBuffer)) (wake (.xTasksWaitingToSend q) (dequeue q s h))
    else refuse c s

omit [DecidableEq τ] in
def prvLockQueue (q : κ) (s : State τ κ α uxPriority spare) : State τ κ α uxPriority spare :=
  { s with queues := Function.update s.queues q (s.queues q).prvLockQueue }

/-- The first half of `prvUnlockQueue`. -/
def unlockTx (q : κ) (s : State τ κ α uxPriority spare) : State τ κ α uxPriority spare :=
  { s with sched := wakeCounted (.xTasksWaitingToReceive q) (s.queues q).cTxLock.toNat s.sched,
           queues := Function.update s.queues q { s.queues q with cTxLock := queueUNLOCKED } }

/-- The second half of `prvUnlockQueue`. -/
def unlockRx (q : κ) (s : State τ κ α uxPriority spare) : State τ κ α uxPriority spare :=
  { s with sched := wakeCounted (.xTasksWaitingToSend q) (s.queues q).cRxLock.toNat s.sched,
           queues := Function.update s.queues q { s.queues q with cRxLock := queueUNLOCKED } }

omit [DecidableEq τ] [DecidableEq κ] in
/-- `prvIsQueueFull` for a send, `prvIsQueueEmpty` for a receive. -/
def mustWait (s : State τ κ α uxPriority spare) : Request κ α → Bool
  | .send q _ => (s.queues q).prvIsQueueFull
  | .receive q => (s.queues q).prvIsQueueEmpty

/-- The critical section `c.pc` of the call `c` of the running task. -/
def criticalSection (idle : τ) (c : Call κ α) (s : State τ κ α uxPriority spare) : Option (State τ κ α uxPriority spare) :=
  match c.pc with
  | .check => some (check c s)
  | .suspend => goOn idle .suspend (some { c with pc := .lock }) s
  | .lock => some (setCall (some { c with pc := .checkTimeOut }) (prvLockQueue c.request.xQueue s))
  | .checkTimeOut =>
    c.xTimeOut.map fun xTimeOut =>
      let r := s.sched.delayed.xTaskCheckForTimeOut xTimeOut c.xTicksToWait
      setCall (some { c with xTicksToWait := r.2.2, xTimeOut := some r.2.1,
                             pc := if r.1 then .unlockTx .timedOut else .look }) s
  | .look => some (setCall (some { c with pc := if mustWait s c.request then .place else .unlockTx .retry }) s)
  | .place => goOn idle (.place c.request.waitsIn c.xTicksToWait) (some { c with pc := .delay }) s
  | .delay => goOn idle .delayPlaced (some { c with pc := .unlockTx .block }) s
  | .unlockTx a => some (setCall (some { c with pc := .unlockRx a }) (unlockTx c.request.xQueue s))
  | .unlockRx a => some (setCall (some { c with pc := .resume a }) (unlockRx c.request.xQueue s))
  | .resume .block =>
    let yielded := (Scheduler.xTaskResumeAll s.sched).2
    goOn idle (.resume true) (some { c with pc := if yielded then .check else .yield }) s
  | .resume .retry => goOn idle (.resume false) (some { c with pc := .check }) s
  | .resume .timedOut =>
    match c.request with
    | .send _ _ => (goOn idle (.resume false) none s).map (returns c.request .errQUEUE_FULL)
    | .receive _ => goOn idle (.resume false) (some { c with pc := .lookTimedOut }) s
  | .yield => goOn idle .yield (some { c with pc := .check }) s
  | .lookTimedOut =>
    some (if mustWait s c.request then finish c c.request.refusal s else setCall (some { c with pc := .check }) s)

/-! ## Steps -/

/-- The tick interrupt, PendSV or a kernel call of the running task that is no queue's; a
send or a receive from an interrupt, `sendInISR` being `xQueueSend` called there; the start
of a call of the running task; or the next critical section of its call. -/
inductive Event (κ α : Type) where
  | scheduler (e : Scheduler.Event (Waiting κ))
  | sendFromISR (q : κ) (x : α)
  | receiveFromISR (q : κ)
  | sendInISR (q : κ) (x : α)
  | request (r : Request κ α) (xTicksToWait : UInt32)
  | go
  deriving DecidableEq, Repr

omit [DecidableEq κ] in
/-- The kernel calls a task makes outside the queues. -/
def IsOwn : Scheduler.Event (Waiting κ) → Prop
  | .suspend | .resume _ | .delay _ | .yield | .delete | .cleanUp => True
  | .tick | .pendSV | .wake _ | .unlock _ | .place _ _ | .delayPlaced => False

omit [DecidableEq τ] [DecidableEq κ] in
/-- The running task may call a queue: it is not blocked, and it has not suspended the
scheduler, nor is it the idle task, if it is ready to wait. -/
def MayCall (idle : τ) (s : State τ κ α uxPriority spare) (xTicksToWait : UInt32) : Prop :=
  s.call s.sched.pxCurrentTCB = none ∧ Scheduler.At s.sched .running ∧ s.sched.ready.Ready s.sched.pxCurrentTCB ∧
    (xTicksToWait ≠ 0 → s.sched.uxSchedulerSuspended = 0 ∧ s.sched.pxCurrentTCB ≠ idle)

instance (e : Scheduler.Event (Waiting κ)) : Decidable (IsOwn e) := by
  cases e <;> unfold IsOwn <;> infer_instance

instance (idle : τ) (s : State τ κ α uxPriority spare) (xTicksToWait : UInt32) :
    Decidable (MayCall idle s xTicksToWait) :=
  inferInstanceAs (Decidable (_ ∧ _))

def step (idle : τ) (s : State τ κ α uxPriority spare) : Event κ α → Option (State τ κ α uxPriority spare)
  | .scheduler e =>
    if e = .tick ∨ e = .pendSV ∨ (IsOwn e ∧ s.call s.sched.pxCurrentTCB = none) then
      (Scheduler.step idle s.sched e).map fun sched => { s with sched := sched }
    else none
  | .sendFromISR q x =>
    let r := xQueueGenericSendFromISR q x s
    some (returns (.send q x) r.2 r.1)
  | .receiveFromISR q =>
    let r := xQueueReceiveFromISR q s
    some (returns (.receive q) r.2 r.1)
  | .sendInISR q x =>
    if h : (s.queues q).uxMessagesWaiting < spare q + 1 then
      -- the task-level send does not look at `cTxLock`
      some (returns (.send q x) (.pdPASS none) (wake (.xTasksWaitingToReceive q) (enqueue q x s h)))
    else none
  | .request r xTicksToWait =>
    if MayCall idle s xTicksToWait then some (setCall (some ⟨r, xTicksToWait, none, .check⟩) s) else none
  | .go =>
    -- PendSV comes before the task's next instruction
    if s.sched.pendSV then none else (s.call s.sched.pxCurrentTCB).bind fun c => criticalSection idle c s

end WindowFilter.Queues
