import WindowFilter.Pipeline.Model
import WindowFilter.Lib.WindowSum

/- The receiver on any stream of samples. `s j` is the `j`-th sample, 0 for `j` up to 0,
   where the buffer has not been filled yet; nothing else is asked of it but that its
   window sums fit an `int`.

   * `averagesOf`: the list of averages for the windows read.
   * `Receives`: what every statement of the receiver and of the display keeps, and the
     arrival of the next sample. The queue holds the samples between the receiver and
     the sender, `values` the last ten the receiver has taken, and what is shown, queued
     and in hand is what `averagesOf` gives. -/
namespace WindowFilter.Pipeline
open WindowSum

/-- The window in force when `get_N_value` returns `n`. -/
def window (n : Int) : Nat := if n < 0 then 1 else min n.toNat MAX_VALUES_AVERAGE

/-- The `k`-th average of the stream, of a window of `w`. -/
def averageOf (s : Int → Int) (k : Int) (w : Nat) : Int := (windowSum s k w).tdiv w

/-- The averages of the stream for the windows read. -/
def averagesOf (s : Int → Int) (reads : List Int) : List Int :=
  reads.mapIdx (fun i n => averageOf s (i + 1) (window n))

theorem averagesOf_snoc (s : Int → Int) (reads : List Int) (n : Int) :
    averagesOf s (reads ++ [n]) = averagesOf s reads ++ [averageOf s (reads.length + 1) (window n)] := by
  simp only [averagesOf, List.mapIdx_append, List.mapIdx_cons, List.mapIdx_nil, Nat.zero_add]

theorem clampN_eq {n : Int} (hn : n ≠ 0) : clampN n = window n ∧ 1 ≤ window n ∧ window n ≤ MAX_VALUES_AVERAGE := by
  unfold clampN window MAX_VALUES_AVERAGE
  split
  · simp
  · split <;> omega

/-- A stream that starts after 0 and whose partial window sums fit an `int`. -/
structure SampleStream (s : Int → Int) : Prop where
  before : ∀ j, j ≤ 0 → s j = 0
  fits : ∀ k (i : Nat), i ≤ MAX_VALUES_AVERAGE → InInt (windowSum s k i)

/-! ## The invariant -/

/-- `values` holds the last ten samples up to the `k`-th, the newest first. -/
def HoldsOf (s : Int → Int) (values : Vector Int MAX_VALUES_AVERAGE) (k : Int) : Prop :=
  ∀ j (h : j < MAX_VALUES_AVERAGE), values[j] = s (k - j)

/-- What the display has received and what waits for it. -/
def emitted (p : State) : List Int := p.shown ++ p.xDisplayQueue.items

/-- The samples the receiver has taken from the queue. -/
def taken (p : State) : Nat :=
  p.reads.length + match p.receiver.pc with
    | .shift | .read => 1
    | _ => 0

/-- What holds of the receiver's locals at each of its statements, when it has read the
windows `reads` and sent the averages `out`. -/
def ReceiverOf (s : Int → Int) (r : Receiver) (reads out : List Int) : ReceiverPc → Prop
  | .start | .receive => HoldsOf s r.values reads.length ∧ out = averagesOf s reads
  | .shift => HoldsOf s r.values reads.length ∧ r.value = s (reads.length + 1) ∧ out = averagesOf s reads
  | .read => HoldsOf s r.values (reads.length + 1) ∧ out = averagesOf s reads
  | .sum i =>
    ∃ rs n, reads = rs ++ [n] ∧ n ≠ 0 ∧ HoldsOf s r.values reads.length ∧ r.N = window n ∧ i ≤ window n ∧
      r.filter = windowSum s reads.length i ∧ out = averagesOf s rs
  | .divide =>
    ∃ rs n, reads = rs ++ [n] ∧ n ≠ 0 ∧ HoldsOf s r.values reads.length ∧ r.N = window n ∧
      r.filter = windowSum s reads.length (window n) ∧ out = averagesOf s rs
  | .send => HoldsOf s r.values reads.length ∧ out ++ [r.filter] = averagesOf s reads
  | .fault => False

/-- The receiver's side of the pipeline, on the stream `s`. -/
structure Receives (s : Int → Int) (p : State) : Prop where
  queue : p.xSensorQueue.items = (List.range' (taken p + 1) p.xSensorQueue.items.length).map (fun j : Nat => s j)
  count : p.sent = taken p + p.xSensorQueue.items.length
  receiver : ReceiverOf s p.receiver p.reads (emitted p) p.receiver.pc

theorem holdsOf_init {s : Int → Int} (hs : SampleStream s) : HoldsOf s (Vector.replicate MAX_VALUES_AVERAGE 0) 0 := by
  intro j h
  rw [hs.before _ (by omega)]
  simp

theorem receives_init {s : Int → Int} (hs : SampleStream s) : Receives s init where
  queue := rfl
  count := rfl
  receiver := ⟨holdsOf_init hs, rfl⟩

/-- Shifting the next sample in. -/
theorem HoldsOf.push {s : Int → Int} {values : Vector Int MAX_VALUES_AVERAGE} {k : Int} (h : HoldsOf s values k) :
    HoldsOf s (ShiftRegister.push values (s (k + 1))) (k + 1) := by
  intro j hj
  cases j with
  | zero =>
    rw [ShiftRegister.push_get_zero]
    simp
  | succ j =>
    rw [ShiftRegister.push_get_succ _ _ _ (by unfold MAX_VALUES_AVERAGE at hj; omega), h j (by omega)]
    congr 1
    omega

/-! ## One step -/

section
variable {s : Int → Int}

/-- The next sample goes behind the last one sent. -/
theorem Receives.arrive {p : State} (hr : Receives s p) {q : Fifo Int Window.queueLength}
    (hq : q.items = p.xSensorQueue.items ++ [s (p.sent + 1)]) {sensor : Sensor} :
    Receives s { p with xSensorQueue := q, sent := p.sent + 1, sensor := sensor } := by
  have hcount := hr.count
  refine ⟨?_, ?_, hr.receiver⟩
  · show q.items = (List.range' (taken p + 1) q.items.length).map _
    rw [hq, List.length_append, List.length_singleton, List.range'_concat, List.map_append, ← hr.queue]
    congr 1
    rw [hcount]
    simp only [List.map_cons, List.map_nil, Nat.one_mul]
    congr 2
    push_cast
    omega
  · show p.sent + 1 = taken p + q.items.length
    rw [hq, List.length_append, List.length_singleton, hcount]
    omega

/-- A step that keeps what is shown and queued, together, and the receiver with its queue. -/
theorem Receives.keep {p p' : State} (hr : Receives s p) (hq : p'.xSensorQueue = p.xSensorQueue)
    (hsent : p'.sent = p.sent) (hrec : p'.receiver = p.receiver) (hreads : p'.reads = p.reads)
    (hout : emitted p' = emitted p) : Receives s p' where
  queue := by
    rw [hq, taken, hreads, hrec]
    exact hr.queue
  count := by
    rw [hq, hsent, taken, hreads, hrec]
    exact hr.count
  receiver := by
    rw [hrec, hreads, hout]
    exact hr.receiver

theorem receives_display {p p' : State} (hr : Receives s p) (h : DisplayStep p p') : Receives s p' := by
  cases h with
  | splash n pc hpc hpc' => exact hr.keep rfl rfl rfl rfl rfl
  | receive v q hpc hq =>
    refine hr.keep rfl rfl rfl rfl ?_
    show p.shown ++ [v] ++ q.items = emitted p
    rw [emitted, hq, List.append_assoc]
    rfl
  | draw hpc => exact hr.keep rfl rfl rfl rfl rfl

/-- A step of the receiver that does not take from the queue. -/
theorem Receives.move {p p' : State} (hr : Receives s p) (hq : p'.xSensorQueue = p.xSensorQueue)
    (hsent : p'.sent = p.sent) (ht : taken p' = taken p)
    (hrec : ReceiverOf s p'.receiver p'.reads (emitted p') p'.receiver.pc) : Receives s p' where
  queue := by
    rw [hq, ht]
    exact hr.queue
  count := by
    rw [hq, ht, hsent]
    exact hr.count
  receiver := hrec

theorem displayStep_reads {p p' : State} (h : DisplayStep p p') : p'.reads = p.reads := by
  cases h <;> rfl

theorem receiverStep_reads {v : Int} {p p' : State} (h : ReceiverStep v p p') : p.reads <+: p'.reads := by
  cases h <;> first | exact List.prefix_refl _ | exact List.prefix_append _ _

/-- As long as the window read is not 0, the receiver's loop keeps to its stream. -/
theorem receives_receiver (hs : SampleStream s) {v : Int} {p p' : State} (hr : Receives s p) (h : ReceiverStep v p p')
    (hreads : 0 ∉ p'.reads) : Receives s p' := by
  have hreceiver := hr.receiver
  cases h with
  | start hpc =>
    rw [hpc] at hreceiver
    refine hr.move rfl rfl ?_ ?_
    · simp only [taken, hpc]
    · exact hreceiver
  | receive value q hpc hq =>
    rw [hpc] at hreceiver
    have hqueue := hr.queue
    have hcount := hr.count
    have htaken : taken p = p.reads.length := by simp only [taken, hpc, Nat.add_zero]
    rw [hq, List.length_cons, List.range'_succ, List.map_cons, List.cons.injEq, htaken] at hqueue
    rw [hq, List.length_cons, htaken] at hcount
    refine ⟨?_, ?_, hreceiver.1, ?_, hreceiver.2⟩
    · exact hqueue.2
    · show p.sent = p.reads.length + 1 + q.items.length
      omega
    · exact hqueue.1
  | shift hpc =>
    rw [hpc] at hreceiver
    refine hr.move rfl rfl ?_ ?_
    · simp only [taken, hpc]
    · obtain ⟨hholds, hvalue, hout⟩ := hreceiver
      refine ⟨?_, hout⟩
      rw [hvalue]
      exact hholds.push
  | read hpc =>
    rw [hpc] at hreceiver
    obtain ⟨hholds, hout⟩ := hreceiver
    have hv : v ≠ 0 := by
      intro h
      exact hreads (by simp [h])
    refine hr.move rfl rfl ?_ ?_
    · simp only [taken, hpc, List.length_append, List.length_singleton, Nat.add_zero]
    · refine ⟨p.reads, v, rfl, hv, ?_, (clampN_eq hv).1, Nat.zero_le _, rfl, hout⟩
      simp only [List.length_append, List.length_singleton, Nat.cast_add, Nat.cast_one]
      exact hholds
  | add i hi hpc hlt =>
    rw [hpc] at hreceiver
    obtain ⟨rs, n, hrs, hn, hholds, hN, hle, hfilter, hout⟩ := hreceiver
    refine hr.move rfl rfl ?_ ?_
    · simp only [taken, hpc]
    · refine ⟨rs, n, hrs, hn, hholds, hN, ?_, ?_, hout⟩
      · rw [hN] at hlt
        omega
      · rw [hfilter, hholds i hi, ← windowSum_succ]
        exact int32_eq (hs.fits _ _ (by omega))
  | summed i hpc hlt =>
    rw [hpc] at hreceiver
    obtain ⟨rs, n, hrs, hn, hholds, hN, hle, hfilter, hout⟩ := hreceiver
    refine hr.move rfl rfl ?_ ?_
    · simp only [taken, hpc]
    · -- the loop ends with every term of the window summed
      have hi : i = window n := by
        rw [hN] at hlt
        omega
      exact ⟨rs, n, hrs, hn, hholds, hN, hi ▸ hfilter, hout⟩
  | outside i hpc hlt hi =>
    rw [hpc] at hreceiver
    obtain ⟨rs, n, hrs, hn, hholds, hN, hle, hfilter, hout⟩ := hreceiver
    have := (clampN_eq hn).2.2
    omega
  | divide hpc hN =>
    rw [hpc] at hreceiver
    obtain ⟨rs, n, hrs, hn, hholds, hN, hfilter, hout⟩ := hreceiver
    refine hr.move rfl rfl ?_ ?_
    · simp only [taken, hpc]
    · refine ⟨hholds, ?_⟩
      have havg : p.receiver.filter.tdiv p.receiver.N = averageOf s (rs.length + 1) (window n) := by
        rw [hfilter, hN, hrs, List.length_append, List.length_singleton]
        rfl
      calc emitted p ++ [p.receiver.filter.tdiv p.receiver.N]
          = averagesOf s rs ++ [averageOf s (rs.length + 1) (window n)] := by rw [hout, havg]
        _ = averagesOf s (rs ++ [n]) := (averagesOf_snoc s rs n).symm
        _ = averagesOf s p.reads := by rw [hrs]
  | divideByZero hpc hN =>
    rw [hpc] at hreceiver
    obtain ⟨rs, n, hrs, hn, hholds, hN', hfilter, hout⟩ := hreceiver
    have := (clampN_eq hn).2.1
    omega
  | send q hpc hroom hq =>
    rw [hpc] at hreceiver
    obtain ⟨hholds, hout⟩ := hreceiver
    refine hr.move rfl rfl ?_ ?_
    · simp only [taken, hpc]
    · refine ⟨hholds, ?_⟩
      show p.shown ++ q.items = _
      rw [hq, ← List.append_assoc]
      exact hout

/-- Short of the average in hand, what is shown and queued is the start of the list of averages. -/
theorem Receives.emits_in_order {p : State} (hr : Receives s p) : emitted p <+: averagesOf s p.reads := by
  have hreceiver := hr.receiver
  have hlast : ∀ rs n, p.reads = rs ++ [n] → emitted p = averagesOf s rs → emitted p <+: averagesOf s p.reads := by
    intro rs n hrs hout
    rw [hrs, averagesOf_snoc, hout]
    exact List.prefix_append _ _
  cases hpc : p.receiver.pc with
  | start =>
    rw [hpc] at hreceiver
    exact hreceiver.2 ▸ List.prefix_refl _
  | receive =>
    rw [hpc] at hreceiver
    exact hreceiver.2 ▸ List.prefix_refl _
  | shift =>
    rw [hpc] at hreceiver
    exact hreceiver.2.2 ▸ List.prefix_refl _
  | read =>
    rw [hpc] at hreceiver
    exact hreceiver.2 ▸ List.prefix_refl _
  | sum i =>
    rw [hpc] at hreceiver
    obtain ⟨rs, n, hrs, _, _, _, _, _, hout⟩ := hreceiver
    exact hlast rs n hrs hout
  | divide =>
    rw [hpc] at hreceiver
    obtain ⟨rs, n, hrs, _, _, _, _, hout⟩ := hreceiver
    exact hlast rs n hrs hout
  | send =>
    rw [hpc] at hreceiver
    exact ⟨_, hreceiver.2⟩
  | fault =>
    rw [hpc] at hreceiver
    exact hreceiver.elim

/-- The `i`-th of what is shown and queued is the average for the `i`-th window read. -/
theorem Receives.emitted_at {p : State} (hr : Receives s p) {i : Nat} {a : Int} (ha : (emitted p)[i]? = some a) :
    ∃ n, p.reads[i]? = some n ∧ a = averageOf s (i + 1) (window n) := by
  obtain ⟨t, ht⟩ := hr.emits_in_order
  have hlt : i < (emitted p).length := (List.getElem?_eq_some_iff.mp ha).1
  have hat : (averagesOf s p.reads)[i]? = some a := by
    rw [← ht, List.getElem?_append_left hlt]
    exact ha
  rw [averagesOf, List.getElem?_mapIdx, Option.map_eq_some_iff] at hat
  obtain ⟨n, hn, hav⟩ := hat
  exact ⟨n, hn, hav.symm⟩

end

end WindowFilter.Pipeline
