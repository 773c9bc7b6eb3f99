import WindowFilter.Scheduler.Model

/- The scheduler of this firmware: the tasks of `main.c` with the priorities of
   `utils.h`, and the event lists of its three queues. -/
namespace WindowFilter.Scheduler

/-- The tasks of `main`, and the one `vTaskStartScheduler` adds. -/
inductive Task where
  | sensor
  | receiver
  | display
  | updateN
  | monitor
  | idle
  deriving DecidableEq, Repr

def Task.uxPriority : Task → Priority
  | .sensor => 3
  | .receiver => 4
  | .display => 2
  | .updateN => 3
  | .monitor => 1
  | .idle => 0

/-- The event lists of the three queues. -/
inductive Waiting where
  | toSend (q : Fin 3)
  | toReceive (q : Fin 3)
  deriving DecidableEq, Repr

/-- The tasks after the first, in the order they are created. -/
def createdAfter : List Task := [.receiver, .display, .updateN, .monitor, .idle]

/-- The scheduler as `main` starts it. -/
def firmware : State Task Waiting Task.uxPriority := start .sensor createdAfter

end WindowFilter.Scheduler
