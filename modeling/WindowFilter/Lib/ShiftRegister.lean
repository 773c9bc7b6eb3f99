import Mathlib.Data.List.Induction

/- The in-place shift register: a loop that walks an array backwards, copying each
   cell to its right, then stores the new value in cell 0. `push` is that loop on
   a `Vector`, with every index in bounds by its type; `push_get` is what it
   does, and `pushAll_get` what a whole history leaves in each cell. -/
namespace ShiftRegister

variable {α : Type} {n : Nat}

/-- `for (; i > 0; i--) v[i] = v[i - 1];` -/
def shiftDown (v : Vector α n) : (i : Nat) → i < n → Vector α n
  | 0, _ => v
  | i + 1, h => shiftDown (v.set (i + 1) v[i]) i (Nat.lt_of_succ_lt h)

/-- Shift every cell right by one and store `x` in cell 0. -/
def push (v : Vector α (n + 1)) (x : α) : Vector α (n + 1) :=
  (shiftDown v n (Nat.lt_succ_self n)).set 0 x

theorem shiftDown_get (v : Vector α n) (i : Nat) (hi : i < n) (j : Nat) (hj : j < n) :
    (shiftDown v i hi)[j] = if h : 0 < j ∧ j ≤ i then v[j - 1] else v[j] := by
  induction i generalizing v with
  | zero =>
    rw [dif_neg (by omega)]
    rfl
  | succ i ih =>
    rw [shiftDown, ih]
    by_cases hin : 0 < j ∧ j ≤ i
    · -- cell `j - 1` is left of the cell just written
      rw [dif_pos hin, dif_pos (by omega), Vector.getElem_set_ne]
      omega
    · rw [dif_neg hin]
      by_cases hj' : j = i + 1
      · subst hj'
        rw [dif_pos (by omega), Vector.getElem_set_self]
        rfl
      · rw [dif_neg (by omega), Vector.getElem_set_ne]
        omega

theorem push_get_zero (v : Vector α (n + 1)) (x : α) : (push v x)[0] = x := by
  simp [push]

theorem push_get_succ (v : Vector α (n + 1)) (x : α) (j : Nat) (hj : j < n) :
    (push v x)[j + 1] = v[j] := by
  rw [push, Vector.getElem_set_ne _ _ (by omega), shiftDown_get, dif_pos (by omega)]
  rfl

/-- The history `xs`, oldest first, pushed one value after the other. -/
def pushAll (v : Vector α (n + 1)) (xs : List α) : Vector α (n + 1) := xs.foldl push v

theorem pushAll_cons (v : Vector α (n + 1)) (x : α) (xs : List α) :
    pushAll v (x :: xs) = pushAll (push v x) xs := rfl

/-- After the history `xs`, cell `i` of a register that started at `d` holds the
value pushed `i` places before the last, and `d` where the history is too short. -/
theorem pushAll_get (d : α) (xs : List α) (i : Nat) (hi : i < n + 1) :
    (pushAll (Vector.replicate (n + 1) d) xs)[i] = xs.reverse.getD i d := by
  induction xs using List.reverseRecOn generalizing i with
  | nil => simp [pushAll]
  | append_singleton xs x ih =>
    rw [pushAll, List.foldl_append, List.reverse_append]
    show (push (pushAll (Vector.replicate (n + 1) d) xs) x)[i] = _
    cases i with
    | zero => rw [push_get_zero]; rfl
    | succ j => rw [push_get_succ _ _ _ (by omega), ih]; rfl

end ShiftRegister
