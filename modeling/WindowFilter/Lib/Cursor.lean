import Mathlib.Data.List.Perm.Lattice
import WindowFilter.Lib.Sorted

/- A list that a cursor walks round and round. New items go in just behind the
   cursor, so that the cursor comes to them last; an item the cursor rests on may be
   taken out, and the cursor then falls back by one.

   * `next_items`: the cursor moves, the list stays.
   * `turns_insertEnd`, `turns_remove`, `turns_next`: how many other items the cursor
     still comes to before `x` is bounded by a number that no insertion and no removal
     raises and that every move lowers (`turns`, at most `2 * (n - 1)` by `turns_le`). -/

/-- The items up to and including the one the cursor rests on, and those after it.
Nothing before: the cursor rests on the end marker. -/
structure Cursor (α : Type) where
  before : List α
  after : List α
  deriving DecidableEq, Repr

namespace Cursor

variable {α : Type}

def empty : Cursor α := ⟨[], []⟩

/-- The items, first to last. -/
def items (c : Cursor α) : List α := c.before ++ c.after

/-- The item the cursor rests on, if it is not the end marker. -/
def rest (c : Cursor α) : Option α := c.before.getLast?

/-- Put `x` just before the item the cursor rests on, or last when it rests on the end
marker. -/
def insertEnd (x : α) (c : Cursor α) : Cursor α :=
  match c.before.getLast? with
  | none => ⟨c.before, c.after ++ [x]⟩
  | some y => ⟨c.before.dropLast ++ [x, y], c.after⟩

/-- Take `x` out. -/
def remove [DecidableEq α] (x : α) (c : Cursor α) : Cursor α := ⟨c.before.erase x, c.after.erase x⟩

/-- Move on to the next item, past the end marker to the first one. -/
def next (c : Cursor α) : Option (α × Cursor α) :=
  match c.after, c.before with
  | y :: ys, bs => some (y, ⟨bs ++ [y], ys⟩)
  | [], y :: bs => some (y, ⟨[y], bs⟩)
  | [], [] => none

@[simp] theorem items_empty : (empty : Cursor α).items = [] := rfl

/-- Where the new item goes. -/
theorem insertEnd_cases (x : α) (c : Cursor α) :
    (c.before = [] ∧ c.insertEnd x = ⟨[], c.after ++ [x]⟩) ∨
    (∃ bs y, c.before = bs ++ [y] ∧ c.insertEnd x = ⟨bs ++ [x, y], c.after⟩) := by
  rcases List.eq_nil_or_concat c.before with hnil | ⟨bs, y, hbs⟩
  · exact .inl ⟨hnil, by rw [insertEnd, hnil]; rfl⟩
  · rw [List.concat_eq_append] at hbs
    refine .inr ⟨bs, y, hbs, ?_⟩
    rw [insertEnd, hbs]
    simp

theorem insertEnd_perm (x : α) (c : Cursor α) : (c.insertEnd x).items.Perm (x :: c.items) := by
  obtain ⟨hbefore, h⟩ | ⟨bs, y, hbefore, h⟩ := insertEnd_cases x c
  · rw [h, items, items, hbefore, List.nil_append, List.nil_append]
    exact List.perm_append_singleton x c.after
  · rw [h, items, items, hbefore]
    have hmid : (bs ++ x :: ([y] ++ c.after)).Perm (x :: (bs ++ ([y] ++ c.after))) := List.perm_middle
    rw [List.append_assoc, List.append_assoc]
    exact hmid

theorem insertEnd_rest (x : α) (c : Cursor α) : (c.insertEnd x).rest = c.rest := by
  obtain ⟨hbefore, h⟩ | ⟨bs, y, hbefore, h⟩ := insertEnd_cases x c
  · rw [h, rest, rest, hbefore]
  · rw [h, rest, rest, hbefore, List.getLast?_append_cons, List.getLast?_append_cons]
    rfl

theorem mem_insertEnd {x y : α} {c : Cursor α} : y ∈ (c.insertEnd x).items ↔ y = x ∨ y ∈ c.items := by
  rw [(insertEnd_perm x c).mem_iff, List.mem_cons]

/-- A move takes no item out and puts none in. -/
theorem next_items {c c' : Cursor α} {y : α} (h : c.next = some (y, c')) : c'.items = c.items := by
  rcases c with ⟨_ | ⟨b, bs⟩, _ | ⟨z, zs⟩⟩
  · cases h
  · cases h
    rfl
  · cases h
    simp [items]
  · cases h
    simp [items]

theorem next_mem {c c' : Cursor α} {y : α} (h : c.next = some (y, c')) : y ∈ c.items := by
  rcases c with ⟨_ | ⟨b, bs⟩, _ | ⟨z, zs⟩⟩
  · cases h
  · cases h
    simp [items]
  · cases h
    simp [items]
  · cases h
    simp [items]

theorem next_of_mem {c : Cursor α} {x : α} (h : x ∈ c.items) : ∃ y c', c.next = some (y, c') := by
  rcases c with ⟨_ | ⟨b, bs⟩, _ | ⟨z, zs⟩⟩
  · simp [items] at h
  · exact ⟨z, _, rfl⟩
  · exact ⟨b, _, rfl⟩
  · exact ⟨z, _, rfl⟩

/-- Put `x` in by its key; the cursor stays where it is. -/
def insertBy {κ : Type} [LinearOrder κ] (key : α → κ) (x : α) (c : Cursor α) : Cursor α :=
  if ∀ y ∈ c.before, key y ≤ key x then ⟨c.before, Sorted.insert key x c.after⟩
  else ⟨Sorted.insert key x c.before, c.after⟩

theorem insertBy_items {κ : Type} [LinearOrder κ] (key : α → κ) (x : α) (c : Cursor α) :
    (c.insertBy key x).items = Sorted.insert key x c.items := by
  rw [insertBy]
  split
  · next hle => exact (Sorted.insert_append_right hle).symm
  · next hgt =>
    obtain ⟨y, hy, hlt⟩ := not_forall₂.mp hgt
    exact (Sorted.insert_append_of_lt hy (not_le.mp hlt) _).symm

theorem insertBy_rest {κ : Type} [LinearOrder κ] (key : α → κ) (x : α) (c : Cursor α) :
    (c.insertBy key x).rest = c.rest := by
  rw [insertBy]
  split
  · rfl
  · next hgt =>
    obtain ⟨y, hy, hlt⟩ := not_forall₂.mp hgt
    exact Sorted.insert_getLast? hy (not_le.mp hlt)

variable [DecidableEq α]

theorem mem_of_mem_remove {x y : α} {c : Cursor α} (h : y ∈ (c.remove x).items) : y ∈ c.items := by
  rcases List.mem_append.mp h with h | h
  · exact List.mem_append_left _ (List.mem_of_mem_erase h)
  · exact List.mem_append_right _ (List.mem_of_mem_erase h)

/-- In a list without repetition, taking `x` out erases it. -/
theorem remove_items {x : α} {c : Cursor α} (hnodup : c.items.Nodup) : (c.remove x).items = c.items.erase x := by
  rw [items, items, remove, List.erase_append]
  split
  · next hx =>
    have hnot : x ∉ c.after := (List.disjoint_of_nodup_append hnodup) hx
    rw [List.erase_of_not_mem hnot]
  · next hx => rw [List.erase_of_not_mem hx]

/-- What is left when `x` is taken out, and where the cursor rests then: on the item before `x`
if it was on `x`. -/
theorem remove_cases {x : α} {c : Cursor α} (hx : x ∈ c.items) (hnodup : c.items.Nodup) :
    ∃ as bs, c.items = as ++ x :: bs ∧ (c.remove x).items = as ++ bs ∧
      (c.remove x).rest = if c.rest = some x then as.getLast? else c.rest := by
  by_cases hbefore : x ∈ c.before
  · obtain ⟨as, bs, -, hsplit, herase⟩ := List.exists_erase_eq hbefore
    have hafter : x ∉ c.after := fun hmem => List.disjoint_of_nodup_append hnodup hbefore hmem
    refine ⟨as, bs ++ c.after, ?_, ?_, ?_⟩
    · rw [items, hsplit, List.append_assoc, List.cons_append]
    · rw [items, remove, herase, List.erase_of_not_mem hafter, List.append_assoc]
    · rw [rest, remove, herase, rest, hsplit]
      rcases List.eq_nil_or_concat bs with rfl | ⟨cs, y, rfl⟩
      · simp
      · have hxbs : x ∉ cs.concat y := by
          rw [items, hsplit] at hnodup
          exact (List.nodup_cons.mp (List.nodup_append.mp (List.nodup_append.mp hnodup).1).2.1).1
        have hne : y ≠ x := by
          rintro rfl
          exact hxbs (by simp)
        have hlast : (as ++ x :: cs.concat y).getLast? = some y := by
          rw [List.concat_eq_append, ← List.cons_append, ← List.append_assoc, List.getLast?_concat]
        rw [hlast, if_neg (by simpa using hne), List.concat_eq_append, ← List.append_assoc, List.getLast?_concat]
  · have hafter : x ∈ c.after := (List.mem_append.mp hx).resolve_left hbefore
    obtain ⟨as, bs, -, hsplit, herase⟩ := List.exists_erase_eq hafter
    refine ⟨c.before ++ as, bs, ?_, ?_, ?_⟩
    · rw [items, hsplit, List.append_assoc]
    · rw [items, remove, herase, List.erase_of_not_mem hbefore, List.append_assoc]
    · rw [rest, remove, List.erase_of_not_mem hbefore, if_neg]
      · rfl
      · exact fun hrest => hbefore (List.mem_of_getLast? hrest)

/-! ## Whose turn comes when -/

/-- A bound on the moves before the cursor comes to `x`, in a list of at most `n` items:
those between, when `x` is ahead; otherwise also those from the first item on. -/
def turns (n : Nat) (x : α) (c : Cursor α) : Nat :=
  if x ∈ c.after then c.after.idxOf x else c.after.length + (n - 1)

theorem turns_le {n : Nat} {x : α} {c : Cursor α} (hx : x ∈ c.items) (hn : c.items.length ≤ n) :
    c.turns n x ≤ 2 * (n - 1) := by
  rw [items, List.length_append] at hn
  rw [turns]
  split
  · next hafter =>
    have := List.idxOf_lt_length_of_mem hafter
    omega
  · next hafter =>
    have hbefore : x ∈ c.before := (List.mem_append.mp hx).resolve_right hafter
    have := List.length_pos_of_mem hbefore
    omega

/-- What comes in gets no turn before `x`. -/
theorem turns_insertEnd (n : Nat) {x : α} {c : Cursor α} (hx : x ∈ c.items) (y : α) :
    (c.insertEnd y).turns n x = c.turns n x := by
  obtain ⟨hbefore, h⟩ | ⟨bs, z, -, h⟩ := insertEnd_cases y c
  · have hafter : x ∈ c.after := by simpa [items, hbefore] using hx
    rw [h, turns, turns, if_pos (List.mem_append_left _ hafter), if_pos hafter, List.idxOf_append_of_mem hafter]
  · rw [h, turns, turns]

theorem idxOf_erase_le {x y : α} (hy : y ≠ x) (l : List α) : (l.erase y).idxOf x ≤ l.idxOf x := by
  induction l with
  | nil => exact Nat.le_refl _
  | cons z l ih =>
    by_cases hz : z = y
    · subst hz
      rw [List.erase_cons_head, List.idxOf_cons_ne _ hy]
      exact Nat.le_succ _
    · rw [List.erase_cons_tail (by simpa using hz)]
      by_cases hzx : z = x
      · rw [hzx, List.idxOf_cons_self]
        exact Nat.zero_le _
      · rw [List.idxOf_cons_ne _ hzx, List.idxOf_cons_ne _ hzx]
        exact Nat.succ_le_succ ih

theorem turns_remove (n : Nat) {x y : α} {c : Cursor α} (hy : y ≠ x) :
    (c.remove y).turns n x ≤ c.turns n x := by
  have hmem : x ∈ c.after.erase y ↔ x ∈ c.after := List.mem_erase_of_ne hy.symm
  simp only [turns, remove, hmem]
  split
  · exact idxOf_erase_le hy c.after
  · exact Nat.add_le_add_right List.length_erase_le (n - 1)

/-- Whoever gets the turn, `x` is nearer. -/
theorem turns_next {n : Nat} {x y : α} {c c' : Cursor α} (hx : x ∈ c.items) (hn : c.items.length ≤ n)
    (h : c.next = some (y, c')) (hy : y ≠ x) : c'.turns n x + 1 ≤ c.turns n x := by
  rcases c with ⟨bs, _ | ⟨z, zs⟩⟩
  · cases bs with
    | nil => cases h
    | cons b bs =>
      cases h
      have htail : x ∈ bs := by simpa [items, hy.symm] using hx
      have hlt := List.idxOf_lt_length_of_mem htail
      simp only [items, List.append_nil, List.length_cons] at hn
      simp only [turns, htail, if_true, List.not_mem_nil, if_false, List.length_nil]
      omega
  · cases h
    by_cases htail : x ∈ zs
    · simp only [turns, htail, if_true, List.mem_cons, or_true, List.idxOf_cons_ne _ hy]
      omega
    · simp only [turns, htail, if_false, List.mem_cons, hy.symm, or_false, List.length_cons]
      omega

end Cursor
