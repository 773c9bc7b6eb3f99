import WindowFilter.Pipeline.Refinement

/- The pipeline never stops, and never runs far ahead of the display. Each task waits
   in one place for its neighbour: the display for an average, the receiver for a
   sample or for room behind it, the sensor for room. Read from the display back, one
   of them always finds what it waits for (`some_task_enabled`). What the sensor has
   sent and the display has not drawn is in a queue or in the hands of the receiver or
   the display (`balance_exec`), at most 102 values. -/
namespace WindowFilter.Pipeline
open Steps

/-! ## Who can move -/

theorem sensor_enabled {p : State}
    (hroom : p.sensor.pc = .send → p.xSensorQueue.items.length < Window.queueLength) :
    ∃ p', vTaskSensor p = some p' := by
  cases hpc : p.sensor.pc with
  | update => simp only [vTaskSensor, hpc, Option.some.injEq, exists_eq']
  | send =>
    obtain ⟨q, hq⟩ := Fifo.send_of_room (x := p.sensor.temperature_v) (hroom hpc)
    simp only [vTaskSensor, hpc, hq, Option.some.injEq, exists_eq']
  | delay => simp only [vTaskSensor, hpc, Option.some.injEq, exists_eq']

theorem receiver_enabled {v : Int} {p : State} (hitem : p.receiver.pc = .receive → p.xSensorQueue.items ≠ [])
    (hroom : p.receiver.pc = .send → p.xDisplayQueue.items.length < Window.queueLength)
    (hfault : p.receiver.pc ≠ .fault) : ∃ p', vTaskReceiverDataSensor v p = some p' := by
  cases hpc : p.receiver.pc with
  | start => simp only [vTaskReceiverDataSensor, hpc, Option.some.injEq, exists_eq']
  | receive =>
    obtain ⟨q, hq⟩ := Fifo.receive_of_nonempty (hitem hpc)
    simp only [vTaskReceiverDataSensor, hpc, hq, Option.some.injEq, exists_eq']
  | shift => simp only [vTaskReceiverDataSensor, hpc, Option.some.injEq, exists_eq']
  | read => simp only [vTaskReceiverDataSensor, hpc, Option.some.injEq, exists_eq']
  | sum i =>
    simp only [vTaskReceiverDataSensor, hpc]
    split
    · split <;> exact ⟨_, rfl⟩
    · exact ⟨_, rfl⟩
  | divide =>
    simp only [vTaskReceiverDataSensor, hpc]
    split <;> exact ⟨_, rfl⟩
  | send =>
    obtain ⟨q, hq⟩ := Fifo.send_of_room (x := p.receiver.filter) (hroom hpc)
    simp only [vTaskReceiverDataSensor, hpc, hq, Option.some.injEq, exists_eq']
  | fault => exact absurd hpc hfault

theorem display_enabled {p : State} (hitem : p.display.pc = .receive → p.xDisplayQueue.items ≠ []) :
    ∃ p', vTaskDisplay p = some p' := by
  cases hpc : p.display.pc with
  | splash n => cases n <;> simp only [vTaskDisplay, hpc, Option.some.injEq, exists_eq']
  | receive =>
    obtain ⟨q, hq⟩ := Fifo.receive_of_nonempty (hitem hpc)
    simp only [vTaskDisplay, hpc, hq, Option.some.injEq, exists_eq']
  | draw => simp only [vTaskDisplay, hpc, Option.some.injEq, exists_eq']

/-- Unless the receiver has faulted, one of the tasks can move. -/
theorem some_task_enabled (v : Int) (p : State) (hfault : p.receiver.pc ≠ .fault) :
    ∃ t p', step v p t = some p' := by
  -- read back from the display: whoever waits, waits for the task before it
  by_cases hd : p.display.pc = .receive ∧ p.xDisplayQueue.items = []
  · by_cases hr : p.receiver.pc = .receive ∧ p.xSensorQueue.items = []
    · -- both queues are empty: the sensor has room
      refine ⟨.sensor, sensor_enabled (fun _ => ?_)⟩
      rw [hr.2]
      decide
    · refine ⟨.receiver, receiver_enabled (fun h hq => hr ⟨h, hq⟩) (fun _ => ?_) hfault⟩
      rw [hd.2]
      decide
  · exact ⟨.display, display_enabled (fun h hq => hd ⟨h, hq⟩)⟩

/-! ## The backlog -/

/-- The values in the receiver's locals. -/
def heldByReceiver (p : State) : Nat :=
  match p.receiver.pc with
  | .start | .receive => 0
  | _ => 1

/-- The values in the display's locals. -/
def heldByDisplay (p : State) : Nat :=
  match p.display.pc with
  | .draw => 1
  | _ => 0

/-- Every sample sent and not yet drawn is somewhere. -/
def Balanced (p : State) : Prop :=
  p.sent = p.drawn + p.xSensorQueue.items.length + p.xDisplayQueue.items.length +
    heldByReceiver p + heldByDisplay p

theorem held_le (p : State) : heldByReceiver p ≤ 1 ∧ heldByDisplay p ≤ 1 := by
  refine ⟨?_, ?_⟩
  · unfold heldByReceiver
    split <;> omega
  · unfold heldByDisplay
    split <;> omega

theorem balanced_step {v : Int} {t : Task} {p p' : State} (hb : Balanced p) (h : step v p t = some p') :
    Balanced p' := by
  unfold Balanced heldByReceiver heldByDisplay at hb ⊢
  cases t with
  | sensor =>
    cases sensor_step h with
    | update hpc => exact hb
    | send q hpc hroom hq =>
      simp only [hq, List.length_append, List.length_singleton]
      omega
    | delay hpc => exact hb
  | receiver =>
    cases receiver_step h with
    | start hpc =>
      rw [hpc] at hb
      exact hb
    | receive value q hpc hq =>
      simp only [hpc, hq, List.length_cons] at hb ⊢
      omega
    | shift hpc =>
      rw [hpc] at hb
      exact hb
    | read hpc =>
      rw [hpc] at hb
      exact hb
    | add i hi hpc hlt =>
      rw [hpc] at hb
      exact hb
    | summed i hpc hlt =>
      rw [hpc] at hb
      exact hb
    | outside i hpc hlt hi =>
      rw [hpc] at hb
      exact hb
    | divide hpc hN =>
      rw [hpc] at hb
      exact hb
    | divideByZero hpc hN =>
      rw [hpc] at hb
      exact hb
    | send q hpc hroom hq =>
      simp only [hpc, hq, List.length_append, List.length_singleton] at hb ⊢
      omega
  | display =>
    cases display_step h with
    | splash n pc hpc hpc' =>
      rw [hpc] at hb
      obtain hr | ⟨m, hm⟩ := hpc'
      · subst hr
        exact hb
      · subst hm
        exact hb
    | receive v q hpc hq =>
      simp only [hpc, hq, List.length_cons] at hb ⊢
      omega
    | draw hpc =>
      simp only [hpc] at hb ⊢
      omega

theorem balance_exec {es : List Event} {w : Open} (h : exec openStep openInit es = some w) : Balanced w.pipe :=
  open_inv (fun _ _ _ _ hb hs => balanced_step hb hs) h rfl

/-- **No deadlock, and a bounded backlog.** In every reachable state of the pipeline, as
long as `get_N_value` has not returned 0 to the receiver's loop: some task can move,
neither queue holds more than 50 items, and what the sensor has sent and the display
has not drawn is in the queues and in the locals of the receiver and the display, at
most 102 values. -/
theorem pipeline_progress {es : List Event} {w : Open} (h : exec openStep openInit es = some w)
    (hreads : 0 ∉ w.pipe.reads) :
    (∃ t w', openStep w (.task t) = some w') ∧
    w.pipe.xSensorQueue.items.length ≤ 50 ∧ w.pipe.xDisplayQueue.items.length ≤ 50 ∧
    (w.pipe.sent : Int) - w.pipe.drawn =
      w.pipe.xSensorQueue.items.length + w.pipe.xDisplayQueue.items.length +
        heldByReceiver w.pipe + heldByDisplay w.pipe ∧
    (w.pipe.sent : Int) - w.pipe.drawn ≤ 102 := by
  have hfault : w.pipe.receiver.pc ≠ .fault := by
    intro hpc
    have hreceiver := (follows_exec h hreads).receiver
    rw [hpc] at hreceiver
    exact hreceiver
  have hsensor : w.pipe.xSensorQueue.items.length ≤ 50 := w.pipe.xSensorQueue.bounded
  have hdisplay : w.pipe.xDisplayQueue.items.length ≤ 50 := w.pipe.xDisplayQueue.bounded
  have hbalance := balance_exec h
  have hheld := held_le w.pipe
  unfold Balanced at hbalance
  refine ⟨?_, hsensor, hdisplay, by omega, by omega⟩
  obtain ⟨t, p', hp'⟩ := some_task_enabled w.valor_ventana w.pipe hfault
  exact ⟨t, { w with pipe := p' }, by rw [openStep, hp']; rfl⟩

theorem pipeline_progress_widened :
    let w := (exec openStep openInit widened).getD openInit
    (∃ t w', openStep w (.task t) = some w') ∧
    w.pipe.xSensorQueue.items.length ≤ 50 ∧ w.pipe.xDisplayQueue.items.length ≤ 50 ∧
    (w.pipe.sent : Int) - w.pipe.drawn =
      w.pipe.xSensorQueue.items.length + w.pipe.xDisplayQueue.items.length +
        heldByReceiver w.pipe + heldByDisplay w.pipe ∧
    (w.pipe.sent : Int) - w.pipe.drawn ≤ 102 := by
  have hrun : exec openStep openInit widened = some ((exec openStep openInit widened).getD openInit) := rfl
  exact pipeline_progress hrun (by decide)

end WindowFilter.Pipeline
