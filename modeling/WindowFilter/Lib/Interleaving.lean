import Mathlib

/- Interleavings. `Merge xs ys zs` says that `zs` is made of `xs` and `ys`, each in its
   order; `Interleaving xss zs` that it is made so of all the lists of `xss`.

   A list of interleaved writers grows by three rules: a writer that has written
   nothing may join (`Interleaving.start`), the first writer may put one more item at
   the end (`Interleaving.put`), and the order the writers are listed in does not
   matter (`Interleaving.perm`). -/

variable {α : Type}

/-- `zs` merges `xs` and `ys`. -/
inductive Merge : List α → List α → List α → Prop where
  | nil : Merge [] [] []
  | left {x : α} {xs ys zs : List α} (h : Merge xs ys zs) : Merge (x :: xs) ys (x :: zs)
  | right {y : α} {xs ys zs : List α} (h : Merge xs ys zs) : Merge xs (y :: ys) (y :: zs)

namespace Merge

theorem nil_left (ys : List α) : Merge [] ys ys := by
  induction ys with
  | nil => exact .nil
  | cons y ys ih => exact .right ih

theorem length {xs ys zs : List α} (h : Merge xs ys zs) : zs.length = xs.length + ys.length := by
  induction h with
  | nil => rfl
  | left _ ih =>
    rw [List.length_cons, List.length_cons, ih]
    omega
  | right _ ih =>
    rw [List.length_cons, List.length_cons, ih]
    omega

theorem snoc_left {xs ys zs : List α} (h : Merge xs ys zs) (x : α) : Merge (xs ++ [x]) ys (zs ++ [x]) := by
  induction h with
  | nil => exact .left .nil
  | left _ ih => exact .left ih
  | right _ ih => exact .right ih

/-- Merging `bs` in before `as` or `as` before `bs` gives the same lists. -/
theorem exchange {as bs ys zs xs : List α} (ha : Merge as ys xs) (hb : Merge bs zs ys) :
    ∃ ys', Merge as zs ys' ∧ Merge bs ys' xs := by
  -- by induction on the outer merge: where it takes from the inner one, the inner one decides
  induction ha generalizing bs zs with
  | nil =>
    cases hb
    exact ⟨[], .nil, .nil⟩
  | left _ ih =>
    obtain ⟨ys', h₁, h₂⟩ := ih hb
    exact ⟨_, .left h₁, .right h₂⟩
  | right _ ih =>
    cases hb with
    | left hb =>
      obtain ⟨ys', h₁, h₂⟩ := ih hb
      exact ⟨_, h₁, .left h₂⟩
    | right hb =>
      obtain ⟨ys', h₁, h₂⟩ := ih hb
      exact ⟨_, .right h₁, .right h₂⟩

end Merge

/-- `zs` is made of the lists `xss`, each whole and in its order. -/
def Interleaving : List (List α) → List α → Prop
  | [], zs => zs = []
  | xs :: xss, zs => ∃ ys, Interleaving xss ys ∧ Merge xs ys zs

namespace Interleaving

theorem start {xss : List (List α)} {zs : List α} (h : Interleaving xss zs) : Interleaving ([] :: xss) zs :=
  ⟨zs, h, Merge.nil_left zs⟩

theorem put {xs : List α} {xss : List (List α)} {zs : List α} (h : Interleaving (xs :: xss) zs) (x : α) :
    Interleaving ((xs ++ [x]) :: xss) (zs ++ [x]) := by
  obtain ⟨ys, hys, hmerge⟩ := h
  exact ⟨ys, hys, hmerge.snoc_left x⟩

theorem perm {xss yss : List (List α)} {zs : List α} (hp : xss.Perm yss) (h : Interleaving xss zs) :
    Interleaving yss zs := by
  induction hp generalizing zs with
  | nil => exact h
  | cons xs _ ih =>
    obtain ⟨ys, hys, hmerge⟩ := h
    exact ⟨ys, ih hys, hmerge⟩
  | swap as bs xss =>
    obtain ⟨ys, ⟨ws, hws, ha⟩, hb⟩ := h
    obtain ⟨ys', h₁, h₂⟩ := hb.exchange ha
    exact ⟨ys', ⟨ws, hws, h₁⟩, h₂⟩
  | trans _ _ ih₁ ih₂ => exact ih₂ (ih₁ h)

/-- Nothing is lost and nothing is added. -/
theorem length {xss : List (List α)} {zs : List α} (h : Interleaving xss zs) :
    zs.length = (xss.map List.length).sum := by
  induction xss generalizing zs with
  | nil =>
    rw [show zs = [] from h]
    rfl
  | cons xs xss ih =>
    obtain ⟨ys, hys, hmerge⟩ := h
    rw [hmerge.length, ih hys, List.map_cons, List.sum_cons]

end Interleaving
