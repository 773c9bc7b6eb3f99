import Mathlib
import WindowFilter.Monitor.Model

/- Is the CPU usage in the report exact? The counter is multiplied by 100 in 32 bits
   before it is divided by the total, so that a counter of more than 42949672 ticks, about
   twelve hours at 1000 a second, is reported wrong.

   * `percentCPU_eq_iff`: one counter.
   * `usage_exact_iff`: a report. -/
namespace WindowFilter.Monitor
open Common Numeral Buffer

/-- The report says of each task the share of the run time it has had, in percent. -/
structure UsageExact (tasks : List TaskStatus_t) (ulTotalRunTime : UInt32) : Prop where
  quotient : ∀ t ∈ tasks, (percentCPU t.ulRunTimeCounter ulTotalRunTime).toNat =
    100 * t.ulRunTimeCounter.toNat / ulTotalRunTime.toNat
  printed : ∀ t ∈ tasks, ∀ buffer_string : List UInt8, buffer_string.length = DEFAULT_SIZE_BUFFERS →
    ∃ r rest, reportTask t ulTotalRunTime buffer_string = some (r, rest) ∧
      r.usage = numeral (100 * t.ulRunTimeCounter.toNat / ulTotalRunTime.toNat : Nat)
  atMost : ∀ t ∈ tasks, (percentCPU t.ulRunTimeCounter ulTotalRunTime).toNat ≤ 100
  ordered : ∀ t ∈ tasks, ∀ t' ∈ tasks, t.ulRunTimeCounter ≤ t'.ulRunTimeCounter →
    percentCPU t.ulRunTimeCounter ulTotalRunTime ≤ percentCPU t'.ulRunTimeCounter ulTotalRunTime

/-! ## One counter -/

theorem toNat_percentCPU {c T : UInt32} (hT : 0 < T) :
    (percentCPU c T).toNat = 100 * c.toNat % 2 ^ 32 / T.toNat := by
  rw [percentCPU, if_pos hT, UInt32.toNat_div, UInt32.toNat_mul, Nat.mul_comm 100]
  rfl

/-- The quotient is right exactly when the product fits: each 2^32 lost is more than the
total, and so is missed by the quotient. -/
theorem percentCPU_eq_iff {c T : UInt32} (hT : 0 < T) :
    (percentCPU c T).toNat = 100 * c.toNat / T.toNat ↔ 100 * c.toNat < 2 ^ 32 := by
  have hpos : 0 < T.toNat := UInt32.lt_iff_toNat_lt.mp hT
  have hlt : T.toNat < 2 ^ 32 := T.toNat_lt
  rw [toNat_percentCPU hT]
  refine ⟨?_, ?_⟩
  · intro h
    by_contra hbig
    have hlost : 100 * c.toNat % 2 ^ 32 + T.toNat ≤ 100 * c.toNat := by omega
    have hless : 100 * c.toNat % 2 ^ 32 / T.toNat + 1 ≤ 100 * c.toNat / T.toNat := by
      calc 100 * c.toNat % 2 ^ 32 / T.toNat + 1
          = (100 * c.toNat % 2 ^ 32 + T.toNat) / T.toNat := (Nat.add_div_right _ hpos).symm
        _ ≤ 100 * c.toNat / T.toNat := Nat.div_le_div_right hlost
    omega
  · intro h
    rw [Nat.mod_eq_of_lt h]

theorem percent_le {c T : Nat} (hc : c ≤ T) : 100 * c / T ≤ 100 := by
  apply Nat.div_le_of_le_mul
  rw [Nat.mul_comm T]
  exact Nat.mul_le_mul_left 100 hc

/-! ## The text -/

theorem cString_written {buf cs : List UInt8} (hcs : ∀ c ∈ cs, c ≠ 0) : cString (written buf (cs ++ [0])) = cs := by
  rw [cString, written, List.append_assoc, List.takeWhile_append_of_pos (by simpa using hcs),
    List.singleton_append, List.takeWhile_cons_of_neg (by simp), List.append_nil]

/-- A number is printed, with the buffer left as long as it was. -/
theorem printInt_returns (x : UInt32) {buf : List UInt8} (hbuf : 12 ≤ buf.length) :
    ∃ text rest, printInt x buf = some (text, rest) ∧ rest.length = buf.length := by
  obtain ⟨o, ho, hlen⟩ := vIntToString_returns (int32_inInt x.toNat) hbuf
  exact ⟨_, o.str, by rw [printInt, ho]; rfl, hlen⟩

/-- A number up to `INT_MAX` is printed as its numeral. -/
theorem printInt_eq {x : UInt32} (hx : x.toNat < 2 ^ 31) {buf : List UInt8} (hbuf : 12 ≤ buf.length) :
    ∃ rest, printInt x buf = some (numeral x.toNat, rest) := by
  have hint : InInt (x.toNat : Int) := by
    rw [inInt_iff]
    omega
  have hmin : (x.toNat : Int) ≠ INT_MIN := by
    rw [INT_MIN]
    omega
  refine ⟨written buf (numeral x.toNat ++ [0]), ?_⟩
  rw [printInt, int32_eq hint, vIntToString_eq hint hmin hbuf, Option.map_some]
  show some (cString (written buf (numeral x.toNat ++ [0])), _) = _
  rw [cString_written (numeral_ne_null _)]

/-- The share of each task is printed, whatever its other numbers are. -/
theorem reportTask_usage (t : TaskStatus_t) {ulTotalRunTime : UInt32} {buf : List UInt8} (hbuf : 12 ≤ buf.length)
    (hsmall : (percentCPU t.ulRunTimeCounter ulTotalRunTime).toNat < 2 ^ 31) :
    ∃ r rest, reportTask t ulTotalRunTime buf = some (r, rest) ∧
      r.usage = numeral (percentCPU t.ulRunTimeCounter ulTotalRunTime).toNat := by
  obtain ⟨priority, buf₁, h₁, hlen₁⟩ := printInt_returns t.uxCurrentPriority hbuf
  obtain ⟨stackFree, buf₂, h₂, hlen₂⟩ := printInt_returns t.usStackHighWaterMark (by omega : 12 ≤ buf₁.length)
  obtain ⟨number, buf₃, h₃, hlen₃⟩ := printInt_returns t.xTaskNumber (by omega : 12 ≤ buf₂.length)
  obtain ⟨rest, h₄⟩ := printInt_eq hsmall (by omega : 12 ≤ buf₃.length)
  have hrun : reportTask t ulTotalRunTime buf =
      some (⟨t.pcTaskName, priority, getStateName t.eCurrentState, stackFree, number,
        numeral (percentCPU t.ulRunTimeCounter ulTotalRunTime).toNat⟩, rest) := by
    simp only [reportTask, h₁, h₂, h₃, h₄, Option.bind_eq_bind, Option.bind_some]
  exact ⟨_, _, hrun, rfl⟩

/-! ## A report -/

/-- **The report is exact until a counter times 100 wraps.** For the states of any tasks
whose counters add up to no more than the total, the percentages are the rounded-down
shares, printed so, none above 100 and in the order of the counters, if and only if no
counter is more than 42949672. -/
theorem usage_exact_iff {tasks : List TaskStatus_t} {ulTotalRunTime : UInt32} (hpos : 0 < ulTotalRunTime)
    (hsum : (tasks.map (fun t => t.ulRunTimeCounter.toNat)).sum ≤ ulTotalRunTime.toNat) :
    UsageExact tasks ulTotalRunTime ↔ ∀ t ∈ tasks, 100 * t.ulRunTimeCounter.toNat < 2 ^ 32 := by
  have hle : ∀ t ∈ tasks, t.ulRunTimeCounter.toNat ≤ ulTotalRunTime.toNat := by
    intro t ht
    have hmem : t.ulRunTimeCounter.toNat ∈ tasks.map (fun t => t.ulRunTimeCounter.toNat) := List.mem_map_of_mem ht
    exact le_trans (List.le_sum_of_mem hmem) hsum
  refine ⟨?_, ?_⟩
  · intro h t ht
    exact (percentCPU_eq_iff hpos).mp (h.quotient t ht)
  · intro h
    have hquotient : ∀ t ∈ tasks, (percentCPU t.ulRunTimeCounter ulTotalRunTime).toNat =
        100 * t.ulRunTimeCounter.toNat / ulTotalRunTime.toNat := by
      intro t ht
      exact (percentCPU_eq_iff hpos).mpr (h t ht)
    have hmost : ∀ t ∈ tasks, (percentCPU t.ulRunTimeCounter ulTotalRunTime).toNat ≤ 100 := by
      intro t ht
      rw [hquotient t ht]
      exact percent_le (hle t ht)
    refine ⟨hquotient, ?_, hmost, ?_⟩
    · intro t ht buf hbuf
      have hsmall := hmost t ht
      rw [DEFAULT_SIZE_BUFFERS] at hbuf
      obtain ⟨r, rest, hrun, husage⟩ := @reportTask_usage t ulTotalRunTime buf (by omega) (by omega)
      exact ⟨r, rest, hrun, by rw [husage, hquotient t ht]⟩
    · intro t ht t' ht' hcc
      rw [UInt32.le_iff_toNat_le, hquotient t ht, hquotient t' ht']
      exact Nat.div_le_div_right (Nat.mul_le_mul_left 100 (UInt32.le_iff_toNat_le.mp hcc))

/-- A task that has run for `ulRunTimeCounter` ticks. -/
def ran (ulRunTimeCounter : UInt32) : TaskStatus_t := ⟨Tx.chars "IDLE", 1, .eReady, 0, ulRunTimeCounter, 40⟩

theorem usage_exact_iff_two :
    UsageExact [ran 2500, ran 7000] 10000 ↔ ∀ t ∈ [ran 2500, ran 7000], 100 * t.ulRunTimeCounter.toNat < 2 ^ 32 :=
  usage_exact_iff (by decide) (by decide)

/-- After twelve and a half hours, nearly all of them idle, the idle task is shown with 4 %. -/
theorem usage_wraps :
    percentCPU 45000000 45010000 = 4 ∧ ¬ UsageExact [ran 45000000, ran 10000] 45010000 := by
  refine ⟨by decide, ?_⟩
  intro h
  have hquotient := h.quotient (ran 45000000) List.mem_cons_self
  exact absurd hquotient (by decide)

end WindowFilter.Monitor
