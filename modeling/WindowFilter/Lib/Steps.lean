import Mathlib.Data.List.Basic

/- Labelled step systems. A system is a partial function `step : σ → α → Option σ`:
   the label says who moves and with what input, `none` says the move is not
   enabled. A run is a list of labels; `exec` is the state it ends in. A property
   of every interleaving is a property of every run.

   * `exec_inv`: an invariant kept by every step holds after every run.
   * `exec_inv_of`: the same for the runs whose steps all satisfy a guard
     (`AllSteps`), which the invariant may use.
   * `allSteps_iff`: two guards that agree under such an invariant.
   * `exec_breaks`: a run that breaks a guard has a first step that does.
   * `Always` and `always_of_inv`: a property of every state a run visits.
   * `sumSteps_eq`, `countSteps_le`: what the steps of a run weigh, and how often it can
     take a marked one.
   * `exec_matches`, `exec_simulates`: each step of one system is the same step, or a run,
     of another. -/
namespace Steps

variable {σ τ α β : Type} {step : σ → α → Option σ}

/-- The state at the end of a run, or `none` when one of its labels is not enabled. -/
def exec (step : σ → α → Option σ) : σ → List α → Option σ
  | s, [] => some s
  | s, a :: as => (step s a).bind (fun s' => exec step s' as)

/-- Every label of the run satisfies `G` in the state it is taken in. -/
def AllSteps (step : σ → α → Option σ) (G : σ → α → Prop) : σ → List α → Prop
  | _, [] => True
  | s, a :: as => G s a ∧ ∀ s', step s a = some s' → AllSteps step G s' as

/-- `P` holds in every state the run visits, the last one included. -/
def Always (step : σ → α → Option σ) (P : σ → Prop) : σ → List α → Prop
  | s, [] => P s
  | s, a :: as => P s ∧ ∀ s', step s a = some s' → Always step P s' as

@[simp] theorem exec_nil (s : σ) : exec step s [] = some s := rfl

theorem exec_cons {s s'' : σ} {a : α} {as : List α} :
    exec step s (a :: as) = some s'' ↔ ∃ s', step s a = some s' ∧ exec step s' as = some s'' := by
  simp only [exec, Option.bind_eq_some_iff]

theorem exec_append {s s'' : σ} {as bs : List α} :
    exec step s (as ++ bs) = some s'' ↔ ∃ s', exec step s as = some s' ∧ exec step s' bs = some s'' := by
  induction as generalizing s with
  | nil => simp
  | cons a as ih =>
    rw [List.cons_append, exec_cons]
    refine ⟨?_, ?_⟩
    · rintro ⟨s₁, h₁, h₂⟩
      obtain ⟨s₂, h₃, h₄⟩ := ih.mp h₂
      exact ⟨s₂, exec_cons.mpr ⟨s₁, h₁, h₃⟩, h₄⟩
    · rintro ⟨s₂, h₁, h₂⟩
      obtain ⟨s₁, h₃, h₄⟩ := exec_cons.mp h₁
      exact ⟨s₁, h₃, ih.mpr ⟨s₂, h₄, h₂⟩⟩

theorem exec_snoc {s s'' : σ} {a : α} {as : List α} :
    exec step s (as ++ [a]) = some s'' ↔ ∃ s', exec step s as = some s' ∧ step s' a = some s'' := by
  rw [exec_append]
  simp only [exec, Option.bind_fun_some]

/-- A run that starts with `as` goes on from the state `as` ends in. -/
theorem exec_append_of {s s' s'' : σ} {as bs : List α} (h : exec step s as = some s') :
    exec step s (as ++ bs) = some s'' ↔ exec step s' bs = some s'' := by
  rw [exec_append, h]
  simp only [Option.some.injEq, exists_eq_left']

/-! ## Guards along a run -/

/-- A guard that the labels of a run meet in every state. -/
theorem allSteps_of_forall {G : σ → α → Prop} {as : List α} (h : ∀ a ∈ as, ∀ s, G s a) (s : σ) :
    AllSteps step G s as := by
  induction as generalizing s with
  | nil => trivial
  | cons a as ih =>
    refine ⟨h a List.mem_cons_self s, ?_⟩
    intro s' _
    exact ih (fun b hb => h b (List.mem_cons_of_mem a hb)) s'

theorem allSteps_append {G : σ → α → Prop} {s s' : σ} {as bs : List α}
    (h : exec step s as = some s') :
    AllSteps step G s (as ++ bs) ↔ AllSteps step G s as ∧ AllSteps step G s' bs := by
  induction as generalizing s with
  | nil => simp only [exec_nil, Option.some.injEq] at h; subst h; simp [AllSteps]
  | cons a as ih =>
    obtain ⟨s₁, h₁, h₂⟩ := exec_cons.mp h
    simp only [List.cons_append, AllSteps, h₁, Option.some.injEq, forall_eq']
    rw [ih h₂, and_assoc]

/-- A decidable guard can be checked along a run. -/
instance decidableAllSteps {G : σ → α → Prop} [∀ s a, Decidable (G s a)] :
    (s : σ) → (as : List α) → Decidable (AllSteps step G s as)
  | _, [] => isTrue trivial
  | s, a :: as =>
    match h : step s a with
    | none => decidable_of_iff (G s a) (by simp [AllSteps, h])
    | some s' =>
      have := decidableAllSteps (G := G) s' as
      decidable_of_iff (G s a ∧ AllSteps step G s' as) (by simp [AllSteps, h])

/-- So can a decidable property of the states it visits. -/
instance decidableAlways {P : σ → Prop} [∀ s, Decidable (P s)] :
    (s : σ) → (as : List α) → Decidable (Always step P s as)
  | s, [] => inferInstanceAs (Decidable (P s))
  | s, a :: as =>
    match h : step s a with
    | none => decidable_of_iff (P s) (by simp [Always, h])
    | some s' =>
      have := decidableAlways (P := P) s' as
      decidable_of_iff (P s ∧ Always step P s' as) (by simp [Always, h])

/-! ## Invariants -/

/-- An invariant kept by every step that satisfies the guard holds after every
run whose steps all do. -/
theorem exec_inv_of {G : σ → α → Prop} {I : σ → Prop}
    (hstep : ∀ s a s', I s → G s a → step s a = some s' → I s') {s s' : σ} {as : List α}
    (h : exec step s as = some s') (hG : AllSteps step G s as) (h0 : I s) : I s' := by
  induction as generalizing s with
  | nil => simp only [exec_nil, Option.some.injEq] at h; exact h ▸ h0
  | cons a as ih =>
    obtain ⟨s₁, h₁, h₂⟩ := exec_cons.mp h
    exact ih h₂ (hG.2 s₁ h₁) (hstep s a s₁ h0 hG.1 h₁)

/-- An invariant kept by every step holds after every run. -/
theorem exec_inv {I : σ → Prop} (hstep : ∀ s a s', I s → step s a = some s' → I s')
    {s s' : σ} {as : List α} (h : exec step s as = some s') (h0 : I s) : I s' :=
  exec_inv_of (G := fun _ _ => True) (fun s a s' hI _ => hstep s a s' hI) h
    (allSteps_of_forall (fun _ _ _ => trivial) s) h0

/-- Two guards that agree wherever an invariant holds, which the steps that meet them keep,
are met by the same runs. -/
theorem allSteps_iff {G G' : σ → α → Prop} {I : σ → Prop}
    (hstep : ∀ s a s', I s → G s a → step s a = some s' → I s') (hG : ∀ s a, I s → (G s a ↔ G' s a))
    {s : σ} (h0 : I s) (as : List α) : AllSteps step G s as ↔ AllSteps step G' s as := by
  induction as generalizing s with
  | nil => exact Iff.rfl
  | cons a as ih =>
    refine ⟨?_, ?_⟩
    · intro h
      refine ⟨(hG s a h0).mp h.1, ?_⟩
      intro s' hs
      exact (ih (hstep s a s' h0 h.1 hs)).mp (h.2 s' hs)
    · intro h
      have hg : G s a := (hG s a h0).mpr h.1
      refine ⟨hg, ?_⟩
      intro s' hs
      exact (ih (hstep s a s' h0 hg hs)).mpr (h.2 s' hs)

/-- A guard that follows from another one and an invariant. -/
theorem allSteps_of_inv {G G' : σ → α → Prop} {I : σ → Prop}
    (hstep : ∀ s a s', I s → G s a → step s a = some s' → I s') (hG : ∀ s a, I s → G s a → G' s a)
    {s : σ} {as : List α} (h : AllSteps step G s as) (h0 : I s) : AllSteps step G' s as := by
  induction as generalizing s with
  | nil => trivial
  | cons a as ih =>
    refine ⟨hG s a h0 h.1, ?_⟩
    intro s' hs
    exact ih (h.2 s' hs) (hstep s a s' h0 h.1 hs)

theorem always_of_inv {G : σ → α → Prop} {I P : σ → Prop}
    (hstep : ∀ s a s', I s → G s a → step s a = some s' → I s') (hP : ∀ s, I s → P s)
    {s : σ} {as : List α} (hG : AllSteps step G s as) (h0 : I s) : Always step P s as := by
  induction as generalizing s with
  | nil => exact hP s h0
  | cons a as ih => exact ⟨hP s h0, fun s' hs => ih (hG.2 s' hs) (hstep s a s' h0 hG.1 hs)⟩

/-- `Always` read through the prefixes of the run. -/
theorem always_iff {P : σ → Prop} {s : σ} {as : List α} :
    Always step P s as ↔ ∀ bs s', bs <+: as → exec step s bs = some s' → P s' := by
  induction as generalizing s with
  | nil =>
    simp only [Always, List.prefix_nil]
    exact ⟨fun h bs s' hb hrun => by subst hb; exact Option.some.inj hrun ▸ h, fun h => h [] s rfl rfl⟩
  | cons a as ih =>
    simp only [Always, ih]
    refine ⟨?_, ?_⟩
    · rintro ⟨h0, h⟩ bs s' hpre hrun
      cases bs with
      | nil => simp only [exec_nil, Option.some.injEq] at hrun; exact hrun ▸ h0
      | cons b bs =>
        obtain ⟨rfl, htail⟩ := List.cons_prefix_cons.mp hpre
        obtain ⟨s₁, h₁, h₂⟩ := exec_cons.mp hrun
        exact h s₁ h₁ bs s' htail h₂
    · intro h
      refine ⟨h [] s (List.nil_prefix) rfl, fun s₁ h₁ bs s' hpre hrun => ?_⟩
      exact h (a :: bs) s' (List.cons_prefix_cons.mpr ⟨rfl, hpre⟩) (exec_cons.mpr ⟨s₁, h₁, hrun⟩)

theorem always_head {P : σ → Prop} {s : σ} {as : List α} (h : Always step P s as) : P s := by
  cases as with
  | nil => exact h
  | cons a as => exact h.1

/-- A property that no step brings about holds all along a run that ends in it. -/
theorem always_of_last {I P : σ → Prop} (hstep : ∀ s a s', I s → step s a = some s' → I s' ∧ (P s' → P s)) {s s' : σ}
    {as : List α} (h : exec step s as = some s') (h0 : I s) (hP : P s') : Always step P s as := by
  induction as generalizing s with
  | nil => simp only [exec_nil, Option.some.injEq] at h; exact h ▸ hP
  | cons a as ih =>
    obtain ⟨s₁, h₁, h₂⟩ := exec_cons.mp h
    obtain ⟨hI, hback⟩ := hstep s a s₁ h0 h₁
    have hrest := ih h₂ hI
    refine ⟨hback (always_head hrest), ?_⟩
    intro s₂ hs₂
    rw [h₁, Option.some.injEq] at hs₂
    exact hs₂ ▸ hrest

/-- What holds in every state of a run may guard its steps, as true of the state before and of
the one behind. -/
theorem allSteps_of_always {G : σ → α → Prop} {P : σ → Prop} {s : σ} {as : List α} (hP : Always step P s as)
    (hG : AllSteps step G s as) :
    AllSteps step (fun u a => G u a ∧ P u ∧ ∀ v, step u a = some v → P v) s as := by
  induction as generalizing s with
  | nil => trivial
  | cons a as ih =>
    refine ⟨⟨hG.1, hP.1, ?_⟩, ?_⟩
    · intro v hv
      exact always_head (hP.2 v hv)
    · intro v hv
      exact ih (hP.2 v hv) (hG.2 v hv)

/-- A run that breaks a guard breaks it at a first step: before that one every step
meets the guard, and the run goes on behind it. -/
theorem exec_breaks {G : σ → α → Prop} [∀ s a, Decidable (G s a)] {s s' : σ} {as : List α}
    (h : exec step s as = some s') (hG : ¬ AllSteps step G s as) :
    ∃ bs a cs u v, as = bs ++ a :: cs ∧ exec step s bs = some u ∧ AllSteps step G s bs ∧
      ¬ G u a ∧ step u a = some v ∧ exec step v cs = some s' := by
  induction as generalizing s with
  | nil => exact absurd trivial hG
  | cons a as ih =>
    obtain ⟨s₁, h₁, h₂⟩ := exec_cons.mp h
    -- either this step is the first, or the first is one of the rest
    by_cases hg : G s a
    · have hrest : ¬ AllSteps step G s₁ as := by
        intro hall
        refine hG ⟨hg, ?_⟩
        intro s₂ hs₂
        rw [h₁, Option.some.injEq] at hs₂
        exact hs₂ ▸ hall
      obtain ⟨bs, b, cs, u, v, has, hu, hall, hb, hv, hcs⟩ := ih h₂ hrest
      refine ⟨a :: bs, b, cs, u, v, ?_, exec_cons.mpr ⟨s₁, h₁, hu⟩, ⟨hg, ?_⟩, hb, hv, hcs⟩
      · rw [has, List.cons_append]
      · intro s₂ hs₂
        rw [h₁, Option.some.injEq] at hs₂
        exact hs₂ ▸ hall
    · exact ⟨[], a, as, s, s₁, rfl, rfl, trivial, hg, h₁, h₂⟩

/-! ## Counting -/

/-- What the steps of the run weigh together. -/
def sumSteps (step : σ → α → Option σ) (w : σ → α → Nat) : σ → List α → Nat
  | _, [] => 0
  | s, a :: as =>
    w s a + match step s a with
      | some s' => sumSteps step w s' as
      | none => 0

/-- How many steps of the run are marked. -/
def countSteps (step : σ → α → Option σ) (mark : σ → α → Bool) : σ → List α → Nat :=
  sumSteps step (fun s a => if mark s a then 1 else 0)

/-- A measure that every step raises by its weight. -/
theorem sumSteps_eq {G : σ → α → Prop} {I : σ → Prop} {w : σ → α → Nat} {μ : σ → Nat}
    (hstep : ∀ s a s', I s → G s a → step s a = some s' → I s' ∧ μ s' = μ s + w s a)
    {s s' : σ} {as : List α} (h : exec step s as = some s') (hG : AllSteps step G s as) (h0 : I s) :
    μ s' = μ s + sumSteps step w s as := by
  induction as generalizing s with
  | nil =>
    simp only [exec_nil, Option.some.injEq] at h
    subst h
    exact (Nat.add_zero _).symm
  | cons a as ih =>
    obtain ⟨s₁, h₁, h₂⟩ := exec_cons.mp h
    obtain ⟨hI, hμ⟩ := hstep s a s₁ h0 hG.1 h₁
    rw [ih h₂ (hG.2 s₁ h₁) hI, hμ, Nat.add_assoc]
    simp only [sumSteps, h₁]

/-- A measure that every marked step lowers and no step raises bounds the marked steps. -/
theorem countSteps_le {G : σ → α → Prop} {I : σ → Prop} {mark : σ → α → Bool} {μ : σ → Nat}
    (hstep : ∀ s a s', I s → G s a → step s a = some s' → I s' ∧ μ s' + (if mark s a then 1 else 0) ≤ μ s)
    {s s' : σ} {as : List α} (h : exec step s as = some s') (hG : AllSteps step G s as) (h0 : I s) :
    countSteps step mark s as + μ s' ≤ μ s := by
  induction as generalizing s with
  | nil =>
    simp only [exec_nil, Option.some.injEq] at h
    subst h
    exact Nat.le_of_eq (Nat.zero_add _)
  | cons a as ih =>
    obtain ⟨s₁, h₁, h₂⟩ := exec_cons.mp h
    obtain ⟨hI, hμ⟩ := hstep s a s₁ h0 hG.1 h₁
    have hrest := ih h₂ (hG.2 s₁ h₁) hI
    simp only [countSteps, sumSteps, h₁] at hrest ⊢
    omega

/-! ## Simulation -/

/-- When every step of one system is the step of the other with the same label, so is every
run. -/
theorem exec_matches {step' : τ → α → Option τ} {R : σ → τ → Prop}
    (hstep : ∀ s a s' t, R s t → step s a = some s' → ∃ t', step' t a = some t' ∧ R s' t')
    {s s' : σ} {t : τ} {as : List α} (h : exec step s as = some s') (h0 : R s t) :
    ∃ t', exec step' t as = some t' ∧ R s' t' := by
  induction as generalizing s t with
  | nil => simp only [exec_nil, Option.some.injEq] at h; exact ⟨t, rfl, h ▸ h0⟩
  | cons a as ih =>
    obtain ⟨s₁, h₁, h₂⟩ := exec_cons.mp h
    obtain ⟨t₁, ht₁, hR⟩ := hstep s a s₁ t h0 h₁
    obtain ⟨t', ht', hR'⟩ := ih h₂ hR
    exact ⟨t', exec_cons.mpr ⟨t₁, ht₁, ht'⟩, hR'⟩

/-- When every step of one system is matched by a run of the other that keeps the
relation, every run is matched. -/
theorem exec_simulates {step' : τ → β → Option τ} {R : σ → τ → Prop} (f : σ → α → List β)
    (hstep : ∀ s a s' t, R s t → step s a = some s' →
      ∃ t', exec step' t (f s a) = some t' ∧ R s' t')
    {s s' : σ} {t : τ} {as : List α} (h : exec step s as = some s') (h0 : R s t) :
    ∃ bs t', exec step' t bs = some t' ∧ R s' t' := by
  induction as generalizing s t with
  | nil => simp only [exec_nil, Option.some.injEq] at h; exact ⟨[], t, rfl, h ▸ h0⟩
  | cons a as ih =>
    obtain ⟨s₁, h₁, h₂⟩ := exec_cons.mp h
    -- the runs that match the steps are put one behind the other
    obtain ⟨t₁, ht₁, hR⟩ := hstep s a s₁ t h0 h₁
    obtain ⟨bs, t', ht', hR'⟩ := ih h₂ hR
    exact ⟨f s a ++ bs, t', exec_append.mpr ⟨t₁, ht₁, ht'⟩, hR'⟩

end Steps
