import WindowFilter.Pipeline.Stream

/- What the pipeline computes. The specification has no tasks, queues or buffers: it
   is a function from the windows read so far to the list of averages (`averages`).
   Whatever the interleaving, and whenever the window is written, what the display
   has received is a prefix of that list.

   * `Follows`: what every statement keeps. It is the invariant `Receives` of the receiver,
     on the stream of the sensor's samples, and says what the sensor is about to send.
   * `shown_prefix`: the refinement. -/
namespace WindowFilter.Pipeline
open Steps WindowSum

/-! ## The specification -/

/-- The `j`-th sample of the sensor, and 0 before the first. -/
def sample (j : Int) : Int := if 1 ≤ j then j % (MAX_TEMPERATURE + 1) else 0

/-- The averages for the windows read. -/
def averages (reads : List Int) : List Int := averagesOf sample reads

theorem sample_bounds (j : Int) : 0 ≤ sample j ∧ sample j ≤ 20 := by
  unfold sample MAX_TEMPERATURE
  split <;> omega

theorem sample_of_nonpos {j : Int} (h : j ≤ 0) : sample j = 0 := if_neg (by omega)

/-- The sensor's update is the next sample. -/
theorem sample_succ (j : Nat) :
    (if sample j < MAX_TEMPERATURE then int32 (sample j + 1) else MIN_TEMPERATURE) = sample (j + 1) := by
  have hb := sample_bounds j
  rw [int32_small (by omega) (by omega)]
  unfold sample MAX_TEMPERATURE MIN_TEMPERATURE
  split_ifs <;> omega

/-! ## The invariant -/

/-- What holds of the sensor's local at each of its statements: it is the last sample
sent, or the one about to be. -/
def SensorAt (temperature_v : Int) (sent : Nat) : SensorPc → Prop
  | .send => temperature_v = sample (sent + 1)
  | .update | .delay => temperature_v = sample sent

/-- What holds of the receiver's locals at each of its statements, when it has read the
windows `reads` and sent the averages `out`. -/
def ReceiverAt (r : Receiver) (reads out : List Int) (pc : ReceiverPc) : Prop := ReceiverOf sample r reads out pc

/-- The invariant of the pipeline. -/
structure Follows (p : State) : Prop where
  sensor : SensorAt p.sensor.temperature_v p.sent p.sensor.pc
  queue : p.xSensorQueue.items = (List.range' (taken p + 1) p.xSensorQueue.items.length).map (fun j : Nat => sample j)
  count : p.sent = taken p + p.xSensorQueue.items.length
  receiver : ReceiverAt p.receiver p.reads (emitted p) p.receiver.pc

/-- The samples of the sensor are a stream, and `Follows` is the invariant of the
receiver on it, beside the sensor's own. -/
theorem sample_stream : SampleStream sample where
  before := fun _ h => sample_of_nonpos h
  fits := by
    intro k i hi
    obtain ⟨hlo, hhi⟩ := windowSum_bounds sample_bounds k i
    unfold MAX_VALUES_AVERAGE at hi
    rw [inInt_iff]
    omega

theorem Follows.receives {p : State} (hf : Follows p) : Receives sample p := ⟨hf.queue, hf.count, hf.receiver⟩

theorem follows_of {p : State} (hs : SensorAt p.sensor.temperature_v p.sent p.sensor.pc) (hr : Receives sample p) :
    Follows p := ⟨hs, hr.queue, hr.count, hr.receiver⟩

theorem follows_init : Follows init := follows_of rfl (receives_init sample_stream)

/-! ## One step -/

theorem follows_sensor {p p' : State} (hf : Follows p) (h : SensorStep p p') : Follows p' := by
  have hsensor := hf.sensor
  cases h with
  | update hpc =>
    rw [hpc] at hsensor
    refine ⟨?_, hf.queue, hf.count, hf.receiver⟩
    show (if p.sensor.temperature_v < MAX_TEMPERATURE then _ else _) = _
    rw [hsensor]
    exact sample_succ p.sent
  | send q hpc hroom hq =>
    rw [hpc] at hsensor
    refine follows_of ?_ (hf.receives.arrive (hsensor ▸ hq))
    show p.sensor.temperature_v = sample ((p.sent + 1 : Nat) : Int)
    rw [hsensor]
    rfl
  | delay hpc =>
    rw [hpc] at hsensor
    exact ⟨hsensor, hf.queue, hf.count, hf.receiver⟩

theorem follows_display {p p' : State} (hf : Follows p) (h : DisplayStep p p') : Follows p' := by
  refine follows_of ?_ (receives_display hf.receives h)
  cases h <;> exact hf.sensor

theorem follows_receiver {v : Int} {p p' : State} (hf : Follows p) (h : ReceiverStep v p p')
    (hreads : 0 ∉ p'.reads) : Follows p' := by
  refine follows_of ?_ (receives_receiver sample_stream hf.receives h hreads)
  cases h <;> exact hf.sensor

/-! ## Runs -/

theorem step_reads {v : Int} {t : Task} {p p' : State} (h : step v p t = some p') : p.reads <+: p'.reads := by
  cases t with
  | sensor => cases sensor_step h <;> exact List.prefix_refl _
  | display => exact displayStep_reads (display_step h) ▸ List.prefix_refl _
  | receiver => exact receiverStep_reads (receiver_step h)

/-- As long as no window read was 0, every step keeps the invariant. -/
theorem follows_step {v : Int} {t : Task} {p p' : State} (hf : 0 ∉ p.reads → Follows p)
    (h : step v p t = some p') (hreads : 0 ∉ p'.reads) : Follows p' := by
  have hprev : Follows p := hf (fun h0 => hreads ((step_reads h).subset h0))
  cases t with
  | sensor => exact follows_sensor hprev (sensor_step h)
  | receiver => exact follows_receiver hprev (receiver_step h) hreads
  | display => exact follows_display hprev (display_step h)

theorem follows_exec {es : List Event} {w : Open} (h : exec openStep openInit es = some w)
    (hreads : 0 ∉ w.pipe.reads) : Follows w.pipe :=
  open_inv (I := fun p => 0 ∉ p.reads → Follows p) (fun _ _ _ _ hf hs => follows_step hf hs) h
    (fun _ => follows_init) hreads

/-- **The pipeline refines its specification.** In every state of every interleaving of
the three tasks with writes to `valor_ventana`, as long as `get_N_value` has not
returned 0 to the receiver's loop: what the display has received is a prefix of the
averages for the windows read. -/
theorem shown_prefix {es : List Event} {w : Open} (h : exec openStep openInit es = some w)
    (hreads : 0 ∉ w.pipe.reads) : w.pipe.shown <+: averages w.pipe.reads :=
  (List.prefix_append _ _).trans (follows_exec h hreads).receives.emits_in_order

/-- Three samples from the sensor, through windows of 1, 3 and 2; the writes come while the
receiver sums. The display receives two of the averages. -/
def widened : List Event :=
  List.replicate 2 (.task .sensor) ++ List.replicate 5 (.task .receiver) ++ .write 3 ::
    List.replicate 3 (.task .sensor) ++ List.replicate 8 (.task .receiver) ++ .write 2 ::
    List.replicate 4 (.task .receiver) ++ List.replicate 20 (.task .display) ++ List.replicate 3 (.task .sensor) ++
    List.replicate 8 (.task .receiver)

theorem shown_prefix_widened :
    ((exec openStep openInit widened).getD openInit).pipe.reads = [1, 3, 2] ∧
    ((exec openStep openInit widened).getD openInit).pipe.shown = [1, 1] ∧
    ((exec openStep openInit widened).getD openInit).pipe.shown <+:
      averages ((exec openStep openInit widened).getD openInit).pipe.reads := by
  have hrun : exec openStep openInit widened = some ((exec openStep openInit widened).getD openInit) := rfl
  exact ⟨by decide, by decide, shown_prefix hrun (by decide)⟩

end WindowFilter.Pipeline
