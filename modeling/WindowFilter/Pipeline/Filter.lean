import WindowFilter.Pipeline.Stream
import Mathlib.Data.Rat.Floor
import Mathlib.Tactic.Linarith

/- The receiver as a low-pass filter. The sensor is replaced by any stream of samples
   between two bounds; the receiver and the display keep their code, and the window may
   be written at any time.

   * `windowSum_within`: what the bounds say of the summing loop.
   * `tdiv_add_le`: a truncated quotient grows by no more than the rounded-up quotient of
     what the dividend grows by, across 0 too.
   * `low_pass`: so nothing overflows, no average leaves the bounds, and from one average
     to the next there is no more than a `w`-th of their distance. -/
namespace WindowFilter.Pipeline
open Steps WindowSum

/-! ## The system -/

/-- The stream as the buffer of the receiver shows it: `xs 0` is the first sample, and
before it there are zeros. -/
def padded (xs : Nat → Int) (j : Int) : Int := if 1 ≤ j then xs (j - 1).toNat else 0

/-- The next sample of the stream is sent to `xSensorQueue`. -/
def feed (xs : Nat → Int) (p : State) : Option State :=
  match p.xSensorQueue.send (xs p.sent) with
  | some q => some { p with xSensorQueue := q, sent := p.sent + 1 }
  | none => none

inductive FeedEvent where
  | sample
  | receiver
  | display
  | write (n : Int)
  deriving DecidableEq, Repr

def feedStep (xs : Nat → Int) (w : Open) : FeedEvent → Option Open
  | .sample => (feed xs w.pipe).map (fun p => { w with pipe := p })
  | .receiver => (vTaskReceiverDataSensor w.valor_ventana w.pipe).map (fun p => { w with pipe := p })
  | .display => (vTaskDisplay w.pipe).map (fun p => { w with pipe := p })
  | .write n => some { w with valor_ventana := n }

/-- What is asked of the filter between the bounds `lo` and `hi`. Its `i`-th average is
the one of its `i`-th window read. -/
structure LowPass (lo hi : Int) (p : State) : Prop where
  /-- The next addition of the summing loop is of a cell of the array, and fits. -/
  fits : ∀ i, p.receiver.pc = .sum i → (i : Int) < p.receiver.N →
    ∃ h : i < MAX_VALUES_AVERAGE, InInt (p.receiver.filter + p.receiver.values[i])
  within : ∀ v ∈ emitted p, lo ≤ v ∧ v ≤ hi
  smooth : ∀ i m n a b, p.reads[i]? = some m → p.reads[i + 1]? = some n → clampN m = clampN n →
    (emitted p)[i]? = some a → (emitted p)[i + 1]? = some b → |b - a| ≤ ⌈((hi - lo : Int) : ℚ) / clampN m⌉

/-! ## Bounds of the window sums -/

section
variable {xs : Nat → Int} {lo hi : Int}

theorem padded_bounds (hxs : ∀ j, lo ≤ xs j ∧ xs j ≤ hi) (hlo : lo ≤ 0) (hhi : 0 ≤ hi) (j : Int) :
    lo ≤ padded xs j ∧ padded xs j ≤ hi := by
  rw [padded]
  split_ifs
  · exact hxs _
  · exact ⟨hlo, hhi⟩

/-- The bound on the samples is a bound on every partial sum. -/
theorem padded_stream (hxs : ∀ j, lo ≤ xs j ∧ xs j ≤ hi) (hlo : lo ≤ 0) (hhi : 0 ≤ hi)
    (hmax : (MAX_VALUES_AVERAGE : Int) * max |lo| |hi| ≤ INT_MAX) : SampleStream (padded xs) where
  before := fun j hj => if_neg (by omega)
  fits := by
    intro k i hi10
    obtain ⟨hsumlo, hsumhi⟩ := windowSum_bounds (padded_bounds hxs hlo hhi) k i
    have hterm : ∀ x : Int, |x| ≤ max |lo| |hi| → |(i : Int) * x| ≤ INT_MAX := by
      intro x hx
      calc |(i : Int) * x| = i * |x| := by rw [abs_mul, Nat.abs_cast]
        _ ≤ MAX_VALUES_AVERAGE * max |lo| |hi| := by
          apply mul_le_mul _ hx (abs_nonneg x) (by omega)
          exact_mod_cast hi10
        _ ≤ INT_MAX := hmax
    have hl := abs_le.mp (hterm lo (le_max_left _ _))
    have hh := abs_le.mp (hterm hi (le_max_right _ _))
    rw [INT_MAX] at hl hh
    rw [inInt_iff]
    omega

/-! ## Truncated averages -/

/-- Truncation moves a negative quotient up to the next integer. -/
theorem tdiv_add_le {a b c : Int} {w : Nat} (hw : 1 ≤ w) (hc : 0 ≤ c) (h : a ≤ b + c * w) :
    a.tdiv w ≤ b.tdiv w + c := by
  have hpos : (0 : Int) < w := by omega
  have hdiv : (b + c * w) / (w : Int) = b / w + c := Int.add_mul_ediv_right _ _ (by omega)
  have hdvd : (w : Int) ∣ b + c * w ↔ (w : Int) ∣ b := Int.dvd_add_mul_self
  have hkeep : 0 ≤ b ∨ (w : Int) ∣ b → 0 ≤ b + c * w ∨ (w : Int) ∣ b + c * w := by
    intro hb
    obtain hb | hb := hb
    · exact .inl (add_nonneg hb (mul_nonneg hc (le_of_lt hpos)))
    · exact .inr (hdvd.mpr hb)
  calc a.tdiv w ≤ (b + c * w).tdiv w := Int.tdiv_le_tdiv hpos h
    _ ≤ b.tdiv w + c := by
      rw [Int.tdiv_eq_ediv, Int.tdiv_eq_ediv, hdiv, Int.sign_eq_one_of_pos hpos]
      by_cases hb : 0 ≤ b ∨ (w : Int) ∣ b
      · rw [if_pos hb, if_pos (hkeep hb)]
        omega
      · rw [if_neg hb]
        split_ifs <;> omega

theorem averageOf_within (hxs : ∀ j, lo ≤ xs j ∧ xs j ≤ hi) (hlo : lo ≤ 0) (hhi : 0 ≤ hi) (k : Int) {w : Nat}
    (hw : 1 ≤ w) : lo ≤ averageOf (padded xs) k w ∧ averageOf (padded xs) k w ≤ hi := by
  have hpos : (0 : Int) < w := by omega
  obtain ⟨hsumlo, hsumhi⟩ := windowSum_bounds (padded_bounds hxs hlo hhi) k w
  refine ⟨?_, ?_⟩
  · calc lo = ((w : Int) * lo).tdiv w := (Int.mul_tdiv_cancel_left lo (by omega)).symm
      _ ≤ (windowSum (padded xs) k w).tdiv w := Int.tdiv_le_tdiv hpos hsumlo
  · calc (windowSum (padded xs) k w).tdiv w ≤ ((w : Int) * hi).tdiv w := Int.tdiv_le_tdiv hpos hsumhi
      _ = hi := Int.mul_tdiv_cancel_left hi (by omega)

/-- One sample enters the window and one leaves it. -/
theorem averageOf_slide (hxs : ∀ j, lo ≤ xs j ∧ xs j ≤ hi) (hlo : lo ≤ 0) (hhi : 0 ≤ hi) (k : Int) {w : Nat}
    (hw : 1 ≤ w) :
    |averageOf (padded xs) (k + 1) w - averageOf (padded xs) k w| ≤ ⌈((hi - lo : Int) : ℚ) / (w : Int)⌉ := by
  have hpos : (0 : ℚ) < ((w : Int) : ℚ) := by
    exact_mod_cast hw
  have hceil : hi - lo ≤ ⌈((hi - lo : Int) : ℚ) / (w : Int)⌉ * w := by
    have h := (div_le_iff₀ hpos).mp (Int.le_ceil (((hi - lo : Int) : ℚ) / (w : Int)))
    exact_mod_cast h
  have hnonneg : 0 ≤ ⌈((hi - lo : Int) : ℚ) / (w : Int)⌉ := by
    apply Int.ceil_nonneg
    apply div_nonneg _ (le_of_lt hpos)
    exact_mod_cast (by omega : 0 ≤ hi - lo)
  have hslide := windowSum_slide (padded xs) k w
  have hin := padded_bounds hxs hlo hhi (k + 1)
  have hout := padded_bounds hxs hlo hhi (k + 1 - w)
  rw [abs_le]
  refine ⟨?_, ?_⟩
  · have h : averageOf (padded xs) k w ≤ averageOf (padded xs) (k + 1) w + _ :=
      tdiv_add_le hw hnonneg (by omega)
    omega
  · have h : averageOf (padded xs) (k + 1) w ≤ averageOf (padded xs) k w + _ :=
      tdiv_add_le hw hnonneg (by omega)
    omega

/-! ## Runs -/

theorem receives_feedStep (hs : SampleStream (padded xs)) {w w' : Open} {e : FeedEvent}
    (hr : 0 ∉ w.pipe.reads → Receives (padded xs) w.pipe) (h : feedStep xs w e = some w') (hreads : 0 ∉ w'.pipe.reads) :
    Receives (padded xs) w'.pipe := by
  cases e with
  | sample =>
    simp only [feedStep, feed, Option.map_eq_some_iff] at h
    obtain ⟨p, hp, rfl⟩ := h
    cases hsend : w.pipe.xSensorQueue.send (xs w.pipe.sent) with
    | none => simp [hsend] at hp
    | some q =>
      simp only [hsend, Option.some.injEq] at hp
      subst hp
      refine (hr hreads).arrive ?_
      rw [(Fifo.send_eq_some.mp hsend).2, padded, if_pos (by omega)]
      simp
  | receiver =>
    simp only [feedStep, Option.map_eq_some_iff] at h
    obtain ⟨p, hp, rfl⟩ := h
    have hstep := receiver_step hp
    refine receives_receiver hs (hr ?_) hstep hreads
    intro h0
    exact hreads ((receiverStep_reads hstep).subset h0)
  | display =>
    simp only [feedStep, Option.map_eq_some_iff] at h
    obtain ⟨p, hp, rfl⟩ := h
    have hstep := display_step hp
    refine receives_display (hr ?_) hstep
    rw [← displayStep_reads hstep]
    exact hreads
  | write n =>
    simp only [feedStep, Option.some.injEq] at h
    subst h
    exact hr hreads

theorem receives_feed (hs : SampleStream (padded xs)) {es : List FeedEvent} {w : Open}
    (h : exec (feedStep xs) openInit es = some w) (hreads : 0 ∉ w.pipe.reads) : Receives (padded xs) w.pipe :=
  exec_inv (I := fun w => 0 ∉ w.pipe.reads → Receives (padded xs) w.pipe)
    (fun _ _ _ hr hstep => receives_feedStep hs hr hstep) h (fun _ => receives_init hs) hreads

/-- The summing loop adds up a window sum, which fits. -/
theorem Receives.sum_fits (hs : SampleStream (padded xs)) {p : State} (hr : Receives (padded xs) p) {i : Nat}
    (hpc : p.receiver.pc = .sum i) (hlt : (i : Int) < p.receiver.N) :
    ∃ h : i < MAX_VALUES_AVERAGE, InInt (p.receiver.filter + p.receiver.values[i]) := by
  have hreceiver := hr.receiver
  rw [hpc] at hreceiver
  obtain ⟨rs, n, hrs, hn, hholds, hN, hle, hfilter, hout⟩ := hreceiver
  have hwindow := (clampN_eq hn).2.2
  have hi : i < MAX_VALUES_AVERAGE := by omega
  refine ⟨hi, ?_⟩
  rw [hfilter, hholds i hi, ← windowSum_succ]
  exact hs.fits _ _ hi

/-- **The receiver is a low-pass filter.** On every stream of samples between `lo` and
`hi` whose sums of `MAX_VALUES_AVERAGE` fit an `int`, in every state of every run in which
the windows read are not 0: the summing loop does not overflow, every average is between
the bounds, and two consecutive ones under the same window `w` differ by at most
`(hi - lo) / w`, rounded up. -/
theorem low_pass (hxs : ∀ j, lo ≤ xs j ∧ xs j ≤ hi) (hlo : lo ≤ 0) (hhi : 0 ≤ hi)
    (hmax : (MAX_VALUES_AVERAGE : Int) * max |lo| |hi| ≤ INT_MAX) {es : List FeedEvent} {w : Open}
    (h : exec (feedStep xs) openInit es = some w) (hreads : 0 ∉ w.pipe.reads) : LowPass lo hi w.pipe := by
  have hs := padded_stream hxs hlo hhi hmax
  have hr := receives_feed hs h hreads
  have hpos : ∀ {i : Nat} {n : Int}, w.pipe.reads[i]? = some n → clampN n = window n ∧ 1 ≤ window n := by
    intro i n hn
    have hne : n ≠ 0 := by
      rintro rfl
      exact hreads (List.mem_of_getElem? hn)
    exact ⟨(clampN_eq hne).1, (clampN_eq hne).2.1⟩
  refine ⟨?_, ?_, ?_⟩
  · intro i hpc hlt
    exact hr.sum_fits hs hpc hlt
  · intro v hv
    obtain ⟨i, hi⟩ := List.mem_iff_getElem?.mp hv
    obtain ⟨n, hn, rfl⟩ := hr.emitted_at hi
    exact averageOf_within hxs hlo hhi _ (hpos hn).2
  · intro i m n a b hm hn hsame ha hb
    obtain ⟨m', hm', rfl⟩ := hr.emitted_at ha
    obtain ⟨n', hn', rfl⟩ := hr.emitted_at hb
    obtain rfl := Option.some.inj (hm.symm.trans hm')
    obtain rfl := Option.some.inj (hn.symm.trans hn')
    -- the clamp tells windows apart as the specification does
    have hwindow : window n = window m := by
      have := (hpos hm).1
      have := (hpos hn).1
      omega
    rw [(hpos hm).1, hwindow, Nat.cast_add_one]
    exact averageOf_slide hxs hlo hhi _ (hpos hm).2

/-- Samples that change their sign each time. -/
def alternating (j : Nat) : Int := if j % 2 = 0 then -7 else 8

/-- Two averages of `alternating`, through a window of 2. -/
def alternatingRun : List FeedEvent :=
  [.sample, .sample, .write 2] ++ List.replicate 17 .receiver

theorem low_pass_alternating :
    emitted ((exec (feedStep alternating) openInit alternatingRun).getD openInit).pipe = [-3, 0] ∧
      LowPass (-7) 8 ((exec (feedStep alternating) openInit alternatingRun).getD openInit).pipe := by
  have hrun : exec (feedStep alternating) openInit alternatingRun =
      some ((exec (feedStep alternating) openInit alternatingRun).getD openInit) := rfl
  refine ⟨by decide, low_pass ?_ (by decide) (by decide) (by decide) hrun (by decide)⟩
  intro j
  rw [alternating]
  split_ifs <;> decide

end

end WindowFilter.Pipeline
