import Mathlib.Data.List.Induction

/- An array that is written by index. A store outside it has no meaning (`none`), so a
   program that returns has stayed inside. `written buf cs` is the array once `cs` has been
   stored in its first cells, and `invert` the in-place reversal with two indices that run
   towards each other. -/
namespace Buffer

variable {α : Type}

/-- `buf[i] = c;` -/
def put (buf : List α) (i : Nat) (c : α) : Option (List α) :=
  if i < buf.length then some (buf.set i c) else none

/-- `temp = buf[i]; buf[i] = buf[j]; buf[j] = temp;` -/
def swap (buf : List α) (i j : Nat) : Option (List α) := do
  let temp ← buf[i]?
  let c ← buf[j]?
  let buf ← put buf i c
  put buf j temp

/-- `while (start < stop) { swap; start++; stop--; }` -/
def invert (start : Nat) : Nat → List α → Option (List α)
  | 0, buf => some buf
  | stop + 1, buf =>
    if start < stop + 1 then do
      let buf ← swap buf start (stop + 1)
      invert (start + 1) stop buf
    else some buf

/-- The array with `cs` in its first cells. -/
def written (buf cs : List α) : List α := cs ++ buf.drop cs.length

theorem put_append (pre post : List α) (x c : α) :
    put (pre ++ x :: post) pre.length c = some (pre ++ c :: post) := by
  rw [put, if_pos (by simp), List.set_append_right _ _ (Nat.le_refl _), Nat.sub_self, List.set_cons_zero]

theorem written_nil (buf : List α) : written buf [] = buf := rfl

theorem written_length {buf cs : List α} (h : cs.length ≤ buf.length) : (written buf cs).length = buf.length := by
  rw [written, List.length_append, List.length_drop]
  omega

/-- A store behind what has been written. -/
theorem put_written {buf cs : List α} (h : cs.length < buf.length) (c : α) :
    put (written buf cs) cs.length c = some (written buf (cs ++ [c])) := by
  rw [written, List.drop_eq_getElem_cons h, put_append, written, List.length_append, List.length_singleton,
    List.append_assoc]
  rfl

theorem swap_append (pre mid post : List α) (a b : α) :
    swap (pre ++ a :: (mid ++ b :: post)) pre.length (pre.length + mid.length + 1) =
      some (pre ++ b :: (mid ++ a :: post)) := by
  have hi : (pre ++ a :: (mid ++ b :: post))[pre.length]? = some a := by simp
  have hput : ∀ (x y c : α), put (pre ++ x :: (mid ++ y :: post)) (pre.length + mid.length + 1) c =
      some (pre ++ x :: (mid ++ c :: post)) := by
    intro x y c
    have h := put_append (pre ++ x :: mid) post y c
    simpa [Nat.add_assoc] using h
  have hj : (pre ++ a :: (mid ++ b :: post))[pre.length + mid.length + 1]? = some b := by
    simp [Nat.add_assoc]
  simp only [swap, hi, hj, put_append, hput, Option.bind_eq_bind, Option.bind_some]

theorem invert_done {start stop : Nat} (h : stop ≤ start) (buf : List α) :
    invert start stop buf = some buf := by
  cases stop with
  | zero => rfl
  | succ stop => rw [invert, if_neg (by omega)]

/-- The loop reverses what lies between its indices and leaves the rest. -/
theorem invert_segment (pre mid post : List α) :
    invert pre.length (pre.length + mid.length - 1) (pre ++ mid ++ post) = some (pre ++ mid.reverse ++ post) := by
  induction mid using List.bidirectionalRec generalizing pre post with
  | nil =>
    apply invert_done
    simp only [List.length_nil]
    omega
  | singleton a =>
    apply invert_done
    simp only [List.length_singleton]
    omega
  | cons_append a mid b ih =>
    -- the ends change places, and the loop goes on one cell further in
    have hstop : pre.length + (a :: (mid ++ [b])).length - 1 = pre.length + mid.length + 1 := by
      simp only [List.length_cons, List.length_append, List.length_nil]
      omega
    have hin : (pre ++ [b]).length + mid.length - 1 = pre.length + mid.length := by
      simp only [List.length_append, List.length_singleton]
      omega
    have hbuf : pre ++ a :: (mid ++ [b]) ++ post = pre ++ a :: (mid ++ b :: post) := by simp
    have hrest := ih (pre ++ [b]) (a :: post)
    rw [hin] at hrest
    rw [hstop, hbuf, invert, if_pos (by omega), swap_append]
    simpa using hrest

/-- The loop over a text reverses it and leaves what follows. -/
theorem invert_written (buf cs post : List α) :
    invert 0 (cs.length - 1) (written buf (cs ++ post)) = some (written buf (cs.reverse ++ post)) := by
  have h := invert_segment [] cs (post ++ buf.drop (cs.length + post.length))
  simpa [written] using h

end Buffer
