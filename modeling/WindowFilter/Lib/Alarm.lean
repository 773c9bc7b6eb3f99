import WindowFilter.Lib.Sorted

/- An alarm clock over unbounded time. An alarm is set for so many ticks ahead and rings
   at the tick that is exactly so many later; alarms of one tick ring in the order they
   were set. That no alarm is overdue is a field, so a clock with a missed alarm cannot
   be built.

   * `rings_iff`: what a tick rings.
   * `tick_alarms_iff`, `set_alarms_iff`, `cancel_alarms_iff`: what is left set. -/

/-- The time, and the alarms with the time each rings at, earliest first. -/
structure Alarm (τ : Type) where
  now : Nat
  alarms : List (Nat × τ)
  inOrder : Sorted.InOrder Prod.fst alarms
  ahead : ∀ a ∈ alarms, now < a.1

namespace Alarm

variable {τ : Type}

/-- No alarm is set. -/
def silent (now : Nat) : Alarm τ := ⟨now, [], List.Pairwise.nil, by simp⟩

/-- Set an alarm for `t`, `d` ticks ahead. -/
def set (c : Alarm τ) (t : τ) (d : Nat) (hd : 0 < d) : Alarm τ where
  now := c.now
  alarms := Sorted.insert Prod.fst (c.now + d, t) c.alarms
  inOrder := Sorted.insert_inOrder _ c.inOrder
  ahead := by
    intro a ha
    rcases Sorted.mem_insert.mp ha with rfl | ha
    · exact Nat.lt_add_of_pos_right hd
    · exact c.ahead a ha

/-- Cancel the alarms of `t`. -/
def cancel [DecidableEq τ] (c : Alarm τ) (t : τ) : Alarm τ where
  now := c.now
  alarms := c.alarms.filter (·.2 ≠ t)
  inOrder := List.Pairwise.filter _ c.inOrder
  ahead := fun a ha => c.ahead a (List.mem_filter.mp ha).1

/-- Whose alarms the next tick rings, in order. -/
def rings (c : Alarm τ) : List τ := (c.alarms.takeWhile (fun a => a.1 ≤ c.now + 1)).map Prod.snd

/-- The clock after the next tick. -/
def tick (c : Alarm τ) : Alarm τ where
  now := c.now + 1
  alarms := c.alarms.dropWhile (fun a => a.1 ≤ c.now + 1)
  inOrder := Sorted.dropWhile_inOrder c.inOrder _
  ahead := fun _ ha => ((Sorted.mem_dropWhile_iff c.inOrder _).mp ha).2

theorem set_alarms_iff {c : Alarm τ} {t : τ} {d : Nat} {hd : 0 < d} {a : Nat × τ} :
    a ∈ (c.set t d hd).alarms ↔ a = (c.now + d, t) ∨ a ∈ c.alarms :=
  Sorted.mem_insert

theorem cancel_alarms_iff [DecidableEq τ] {c : Alarm τ} {t : τ} {a : Nat × τ} :
    a ∈ (c.cancel t).alarms ↔ a ∈ c.alarms ∧ a.2 ≠ t := by
  rw [cancel, List.mem_filter, decide_eq_true_iff]

/-- Cancel the alarms of several, one after the other. -/
def cancelAll [DecidableEq τ] (c : Alarm τ) (ts : List τ) : Alarm τ := ts.foldl (fun c t => c.cancel t) c

theorem cancelAll_alarms_iff [DecidableEq τ] {c : Alarm τ} {ts : List τ} {a : Nat × τ} :
    a ∈ (c.cancelAll ts).alarms ↔ a ∈ c.alarms ∧ a.2 ∉ ts := by
  induction ts generalizing c with
  | nil => simp [cancelAll]
  | cons t ts ih =>
    have hcons : c.cancelAll (t :: ts) = (c.cancel t).cancelAll ts := rfl
    rw [hcons, ih, cancel_alarms_iff, List.mem_cons, not_or, and_assoc]

@[simp] theorem cancelAll_now [DecidableEq τ] (c : Alarm τ) (ts : List τ) : (c.cancelAll ts).now = c.now := by
  induction ts generalizing c with
  | nil => rfl
  | cons t ts ih => exact ih (c.cancel t)

/-- A tick rings the alarms set for it. -/
theorem rings_iff {c : Alarm τ} {t : τ} : t ∈ c.rings ↔ (c.now + 1, t) ∈ c.alarms := by
  rw [rings, List.mem_map]
  refine ⟨?_, ?_⟩
  · rintro ⟨⟨d, t⟩, ha, rfl⟩
    obtain ⟨hmem, hle⟩ := (Sorted.mem_takeWhile_iff c.inOrder _).mp ha
    have := c.ahead _ hmem
    have hd : d = c.now + 1 := by
      simp only at hle this
      omega
    exact hd ▸ hmem
  · intro hmem
    exact ⟨(c.now + 1, t), (Sorted.mem_takeWhile_iff c.inOrder _).mpr ⟨hmem, Nat.le_refl _⟩, rfl⟩

/-- A tick leaves the others. -/
theorem tick_alarms_iff {c : Alarm τ} {a : Nat × τ} : a ∈ c.tick.alarms ↔ a ∈ c.alarms ∧ c.now + 1 < a.1 :=
  Sorted.mem_dropWhile_iff c.inOrder _

end Alarm
