import WindowFilter.Kernel.Queue
import WindowFilter.Window.Model

/- `vTaskUpdateN` blocking on `xUpdateNQueue`, as the kernel runs it. The call
   `xQueueReceive(xUpdateNQueue, &N, portMAX_DELAY)` is a sequence of short critical
   sections, one step each, and `vUART_ISR` may run between any two of them; its
   `xQueueSend` is the task-level one, which looks at the event list and never at
   the lock counts.

   The clock is not modelled: whether a wait has expired is a choice of the
   environment (`Event.timeOut`, and the answer of `xTaskCheckForTimeOut`). So is
   what the other tasks do to the scheduler: they suspend and resume it. -/
namespace WindowFilter.Kernel
open Steps

/-- The tasks main creates. -/
inductive Task where
  | sensor
  | receiver
  | display
  | updateN
  | monitor
  deriving DecidableEq, Repr

/-- The priorities main gives them. -/
def Task.uxPriority : Task → Nat
  | .sensor => 3
  | .receiver => 4
  | .display => 2
  | .updateN => 3
  | .monitor => 1

/-! ## The scheduler's lists (`Source/tasks.c`, `Source/list.c`) -/

/-- What `tasks.c` keeps: a task is blocked while it is in `pxDelayedTaskList`. -/
structure Scheduler where
  uxSchedulerSuspended : Nat
  xPendingReadyList : List Task
  pxDelayedTaskList : List Task
  deriving DecidableEq, Repr

/-- `vListInsert` on an event list: by priority, after those of the same priority. -/
def vListInsert (t : Task) (ts : List Task) : List Task :=
  ts.takeWhile (fun u => t.uxPriority ≤ u.uxPriority) ++
    t :: ts.dropWhile (fun u => t.uxPriority ≤ u.uxPriority)

def vTaskSuspendAll (s : Scheduler) : Scheduler :=
  { s with uxSchedulerSuspended := s.uxSchedulerSuspended + 1 }

/-- Out of the delayed list and into the ready list. -/
def prvAddTaskToReadyList (t : Task) (s : Scheduler) : Scheduler :=
  { s with pxDelayedTaskList := s.pxDelayedTaskList.filter (· ≠ t) }

def prvAddCurrentTaskToDelayedList (t : Task) (s : Scheduler) : Scheduler :=
  { s with pxDelayedTaskList := t :: s.pxDelayedTaskList }

/-- `xTaskRemoveFromEventList` once `t` is off its event list. -/
def xTaskRemoveFromEventList (t : Task) (s : Scheduler) : Scheduler :=
  if s.uxSchedulerSuspended = 0 then prvAddTaskToReadyList t s
  else { s with xPendingReadyList := s.xPendingReadyList ++ [t] }

/-- `xTaskResumeAll`: the last resume moves the pending tasks into the ready lists. -/
def xTaskResumeAll (s : Scheduler) : Scheduler :=
  let s := { s with uxSchedulerSuspended := s.uxSchedulerSuspended - 1 }
  if s.uxSchedulerSuspended = 0 then
    { s.xPendingReadyList.foldl (fun s t => prvAddTaskToReadyList t s) s with xPendingReadyList := [] }
  else s

/-- Wake the first task of an event list, if there is one. -/
def wakeFirst : List Task → Scheduler → List Task × Scheduler
  | [], s => ([], s)
  | t :: ts, s => (ts, xTaskRemoveFromEventList t s)

/-- The loop of `prvUnlockQueue` over one lock count: a wake for each unit of it, as
long as a task waits. -/
def wakeCounted : Nat → List Task → Scheduler → List Task × Scheduler
  | 0, ts, s => (ts, s)
  | _ + 1, [], s => ([], s)
  | n + 1, t :: ts, s => wakeCounted n ts (xTaskRemoveFromEventList t s)

/-! ## The state -/

/-- Why `prvUnlockQueue` and `xTaskResumeAll` are called: the task has put itself on
the event list, the queue was not empty after all, or the wait has expired. -/
inductive Leaving where
  | block
  | retry
  | timedOut
  deriving DecidableEq, Repr

/-- The next critical section of `vTaskUpdateN`, `check` to `isEmptyTimedOut` inside
`xQueueReceive`. -/
inductive Pc where
  | check
  | suspend
  | lock
  | checkTimeOut
  | isEmpty
  | insert
  | delay
  | unlockTx (a : Leaving)
  | unlockRx (a : Leaving)
  | resume (a : Leaving)
  | isEmptyTimedOut
  | store
  | print
  deriving DecidableEq, Repr

/-- Between its own `vTaskSuspendAll` and `xTaskResumeAll`. -/
def Pc.suspended : Pc → Bool
  | .lock | .checkTimeOut | .isEmpty | .insert | .delay | .unlockTx _ | .unlockRx _ | .resume _ => true
  | .check | .suspend | .isEmptyTimedOut | .store | .print => false

structure State where
  sched : Scheduler
  xUpdateNQueue : Queue_t Int Task Window.queueLength
  pc : Pc
  /-- `xTicksToWait` is 0. -/
  waitOver : Bool
  N : Int
  valor_ventana : Int
  isrWaiting : Bool
  handled : List UInt8
  uart : List Window.Message

def init : State where
  sched := ⟨0, [], []⟩
  xUpdateNQueue := Queue_t.create 49 0
  pc := .check
  waitOver := false
  N := 0
  valor_ventana := 1
  isrWaiting := false
  handled := []
  uart := []

/-! ## The handler -/

/-- `xQueueSend` from the handler: `xQueueGenericSend`'s first critical section, or
the wait for space that never ends there. -/
def xQueueSend (x : Int) (w : State) : State :=
  if h : w.xUpdateNQueue.uxMessagesWaiting < Window.queueLength then
    let q := w.xUpdateNQueue.prvCopyDataToQueue x h
    -- whoever waits is woken, locked or not: the task-level send does not look at `cTxLock`
    let woken := wakeFirst q.xTasksWaitingToReceive w.sched
    { w with xUpdateNQueue := { q with xTasksWaitingToReceive := woken.1 }, sched := woken.2 }
  else { w with isrWaiting := true }

def sendUART (m : Window.Message) (w : State) : State := { w with uart := m :: w.uart }

/-- `vUART_ISR` on the received byte `c`. -/
def vUART_ISR (c : UInt8) (w : State) : State :=
  if c = Window.byteU then
    let nuevo_N := int32 (w.valor_ventana + 1)
    xQueueSend nuevo_N (sendUART .incremented w)
  else if c = Window.byteD then
    let w := sendUART .decremented w
    let nuevo_N := int32 (w.valor_ventana - 1)
    xQueueSend nuevo_N w
  else w

/-! ## The updater -/

/-- The first half of `prvUnlockQueue`. -/
def unlockTx (w : State) : State :=
  let q := w.xUpdateNQueue
  let woken := wakeCounted q.cTxLock.toNat q.xTasksWaitingToReceive w.sched
  { w with xUpdateNQueue := { q with xTasksWaitingToReceive := woken.1, cTxLock := queueUNLOCKED },
           sched := woken.2 }

/-- The second half of `prvUnlockQueue`. -/
def unlockRx (w : State) : State :=
  let q := w.xUpdateNQueue
  let woken := wakeCounted q.cRxLock.toNat q.xTasksWaitingToSend w.sched
  { w with xUpdateNQueue := { q with xTasksWaitingToSend := woken.1, cRxLock := queueUNLOCKED },
           sched := woken.2 }

/-- The first critical section of `xQueueReceive`'s loop. `errQUEUE_EMPTY` makes
`vTaskUpdateN` call it again. -/
def check (w : State) : State :=
  if h : 0 < w.xUpdateNQueue.uxMessagesWaiting then
    let r := w.xUpdateNQueue.takeFront h
    let woken := wakeFirst r.2.xTasksWaitingToSend w.sched
    { w with N := r.1, xUpdateNQueue := { r.2 with xTasksWaitingToSend := woken.1 }, sched := woken.2,
             waitOver := false, pc := .store }
  -- `xTicksToWait` is 0: `errQUEUE_EMPTY`, and a new call with `portMAX_DELAY`
  else if w.waitOver then { w with waitOver := false }
  else { w with pc := .suspend }

/-- One step of `vTaskUpdateN`; `expired` is the answer of `xTaskCheckForTimeOut`. -/
def vTaskUpdateN (expired : Bool) (w : State) : State :=
  match w.pc with
  | .check => check w
  | .suspend => { w with sched := vTaskSuspendAll w.sched, pc := .lock }
  | .lock => { w with xUpdateNQueue := w.xUpdateNQueue.prvLockQueue, pc := .checkTimeOut }
  | .checkTimeOut =>
    if expired then { w with waitOver := true, pc := .unlockTx .timedOut } else { w with pc := .isEmpty }
  | .isEmpty => { w with pc := if w.xUpdateNQueue.prvIsQueueEmpty then .insert else .unlockTx .retry }
  -- `vTaskPlaceOnEventList` in two: first the event list, then the delayed list
  | .insert =>
    let q := w.xUpdateNQueue
    { w with xUpdateNQueue := { q with xTasksWaitingToReceive := vListInsert .updateN q.xTasksWaitingToReceive },
             pc := .delay }
  | .delay => { w with sched := prvAddCurrentTaskToDelayedList .updateN w.sched, pc := .unlockTx .block }
  | .unlockTx a => { unlockTx w with pc := .unlockRx a }
  | .unlockRx a => { unlockRx w with pc := .resume a }
  | .resume a =>
    { w with sched := xTaskResumeAll w.sched, pc := if a = .timedOut then .isEmptyTimedOut else .check }
  | .isEmptyTimedOut =>
    if w.xUpdateNQueue.prvIsQueueEmpty then { w with waitOver := false, pc := .check }
    else { w with pc := .check }
  | .store => { w with valor_ventana := w.N, pc := .print }
  | .print => { sendUART (.updated w.N) w with pc := .check }

/-! ## Steps -/

/-- A run of the handler, a step of the updater, the tick that ends the updater's
wait, or another task's `vTaskSuspendAll` or `xTaskResumeAll`. -/
inductive Event where
  | isr (c : UInt8)
  | updater (expired : Bool)
  | timeOut
  | suspendOther
  | resumeOther
  deriving DecidableEq, Repr

/-- The updater may run: it has suspended the scheduler itself, or nobody has and it
is not blocked. -/
def canRun (w : State) : Prop :=
  w.pc.suspended = true ∨ (w.sched.uxSchedulerSuspended = 0 ∧ .updateN ∉ w.sched.pxDelayedTaskList)

instance (w : State) : Decidable (canRun w) := inferInstanceAs (Decidable (_ ∨ _))

/-- `xTaskIncrementTick` when the updater's time has come. -/
def wakeOnTick (w : State) : State :=
  let q := w.xUpdateNQueue
  { w with xUpdateNQueue := { q with xTasksWaitingToReceive := q.xTasksWaitingToReceive.filter (· ≠ .updateN) },
           sched := prvAddTaskToReadyList .updateN w.sched }

def step (w : State) (e : Event) : Option State :=
  if w.isrWaiting then none
  else match e with
    | .isr c => some { vUART_ISR c w with handled := w.handled ++ [c] }
    | .updater expired => if canRun w then some (vTaskUpdateN expired w) else none
    | .timeOut =>
      if w.sched.uxSchedulerSuspended = 0 ∧ .updateN ∈ w.sched.pxDelayedTaskList then some (wakeOnTick w)
      else none
    | .suspendOther => if w.pc.suspended then none else some { w with sched := vTaskSuspendAll w.sched }
    | .resumeOther =>
      if w.pc.suspended ∨ w.sched.uxSchedulerSuspended = 0 then none
      else some { w with sched := xTaskResumeAll w.sched }

/-- The two branches of the handler are one: a command sends the global plus its `delta`. -/
theorem vUART_ISR_eq (c : UInt8) (w : State) :
    vUART_ISR c w = match Window.delta c with
      | some d => xQueueSend (int32 (w.valor_ventana + d)) (sendUART (Window.Message.ofDelta d) w)
      | none => w := by
  unfold vUART_ISR Window.delta
  by_cases hU : c = Window.byteU
  · simp [hU, Window.Message.ofDelta]
  · by_cases hD : c = Window.byteD
    · subst hD
      simp [show Window.byteD ≠ Window.byteU by decide, sendUART, Window.Message.ofDelta, Int.sub_eq_add_neg]
    · simp [hU, hD]

theorem step_some {w w' : State} {e : Event} (h : step w e = some w') : w.isrWaiting = false := by
  cases hw : w.isrWaiting with
  | false => rfl
  | true => simp [step, hw] at h

theorem xQueueSend_room (x : Int) (w : State) (h : w.xUpdateNQueue.uxMessagesWaiting < Window.queueLength) :
    xQueueSend x w =
      { w with
        xUpdateNQueue := { w.xUpdateNQueue.prvCopyDataToQueue x h with
          xTasksWaitingToReceive := (wakeFirst w.xUpdateNQueue.xTasksWaitingToReceive w.sched).1 }
        sched := (wakeFirst w.xUpdateNQueue.xTasksWaitingToReceive w.sched).2 } :=
  dif_pos h

theorem xQueueSend_full (x : Int) (w : State) (h : ¬ w.xUpdateNQueue.uxMessagesWaiting < Window.queueLength) :
    xQueueSend x w = { w with isrWaiting := true } :=
  dif_neg h

/-- The state after the command `c`, which adds `d`, has found room: the number is in
the queue and the first task waiting for one is woken. -/
def afterSend (w : State) (c : UInt8) (d : Int) (h : w.xUpdateNQueue.uxMessagesWaiting < Window.queueLength) :
    State :=
  { w with
    xUpdateNQueue := { w.xUpdateNQueue.prvCopyDataToQueue (int32 (w.valor_ventana + d)) h with
      xTasksWaitingToReceive := (wakeFirst w.xUpdateNQueue.xTasksWaitingToReceive w.sched).1 }
    sched := (wakeFirst w.xUpdateNQueue.xTasksWaitingToReceive w.sched).2
    uart := Window.Message.ofDelta d :: w.uart
    handled := w.handled ++ [c] }

/-- What one run of the handler can do. -/
theorem step_isr {w w' : State} {c : UInt8} (h : step w (.isr c) = some w') :
    (Window.delta c = none ∧ w' = { w with handled := w.handled ++ [c] }) ∨
    (∃ d hroom, Window.delta c = some d ∧ w' = afterSend w c d hroom) ∨
    (∃ d, Window.delta c = some d ∧ ¬ w.xUpdateNQueue.uxMessagesWaiting < Window.queueLength ∧
      w' = { w with isrWaiting := true, uart := Window.Message.ofDelta d :: w.uart,
                    handled := w.handled ++ [c] }) := by
  have hw := step_some h
  simp only [step, hw, Bool.false_eq_true, if_false, Option.some.injEq, vUART_ISR_eq] at h
  cases hd : Window.delta c with
  | none =>
    simp only [hd] at h
    exact .inl ⟨rfl, h.symm⟩
  | some d =>
    simp only [hd] at h
    by_cases hroom : w.xUpdateNQueue.uxMessagesWaiting < Window.queueLength
    · rw [xQueueSend_room _ (sendUART (Window.Message.ofDelta d) w) hroom] at h
      exact .inr (.inl ⟨d, hroom, rfl, h.symm⟩)
    · rw [xQueueSend_full _ (sendUART (Window.Message.ofDelta d) w) hroom] at h
      exact .inr (.inr ⟨d, rfl, hroom, h.symm⟩)

end WindowFilter.Kernel
