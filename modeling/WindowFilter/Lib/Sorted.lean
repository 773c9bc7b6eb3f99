import Mathlib.Data.List.Sort
import Mathlib.Data.List.TakeWhile

/- Lists kept in the order of a key. An item goes in behind those whose key is no
   greater, so that items of one key leave in the order they came in.

   * `insert_inOrder`, `insert_perm`: the order is kept, and nothing else changes.
   * `sublist_insert`: what goes in later is behind what it is not below.
   * `insert_append_left`, `insert_append_right`: where it goes in two lists put one
     behind the other.
   * `mem_takeWhile_iff`, `mem_dropWhile_iff`: a sorted list cut at a bound;
     `takeWhile_append`, `takeWhile_map` and their likes: the same in two lists, and
     through a map. -/
namespace Sorted

variable {α β κ : Type} [LinearOrder κ]

/-- The keys do not go down along the list. -/
def InOrder (key : α → κ) (xs : List α) : Prop := xs.Pairwise (fun x y => key x ≤ key y)

/-- Put `x` behind the items whose key is at most its own. -/
def insert (key : α → κ) (x : α) (xs : List α) : List α := xs.orderedInsert (fun y z => key y < key z) x

variable {key : α → κ}

theorem insert_nil (x : α) : insert key x [] = [x] := rfl

theorem insert_cons (x y : α) (xs : List α) :
    insert key x (y :: xs) = if key x < key y then x :: y :: xs else y :: insert key x xs := rfl

theorem insert_perm (x : α) (xs : List α) : (insert key x xs).Perm (x :: xs) := List.perm_orderedInsert _ x xs

@[simp] theorem mem_insert {x y : α} {xs : List α} : y ∈ insert key x xs ↔ y = x ∨ y ∈ xs :=
  List.mem_orderedInsert _

theorem insert_inOrder (x : α) {xs : List α} (h : InOrder key xs) : InOrder key (insert key x xs) := by
  induction xs with
  | nil => exact List.pairwise_singleton _ x
  | cons y ys ih =>
    obtain ⟨hy, hys⟩ := List.pairwise_cons.mp h
    rw [insert_cons]
    split
    · next hlt =>
      refine List.pairwise_cons.mpr ⟨?_, h⟩
      intro z hz
      rcases List.mem_cons.mp hz with rfl | hz
      · exact le_of_lt hlt
      · exact le_trans (le_of_lt hlt) (hy z hz)
    · next hle =>
      refine List.pairwise_cons.mpr ⟨?_, ih hys⟩
      intro z hz
      rcases mem_insert.mp hz with rfl | hz
      · exact not_lt.mp hle
      · exact hy z hz

/-- An item below everything in the second list goes into the first. -/
theorem insert_append_left {x : α} {xs ys : List α} (h : ∀ y ∈ ys, key x < key y) :
    insert key x (xs ++ ys) = insert key x xs ++ ys := by
  induction xs with
  | nil =>
    cases ys with
    | nil => rfl
    | cons y ys =>
      rw [List.nil_append, insert_cons, if_pos (h y List.mem_cons_self)]
      rfl
  | cons z xs ih =>
    rw [List.cons_append, insert_cons, insert_cons, ih]
    split
    · rfl
    · rfl

/-- An item not below anything in the first list goes into the second. -/
theorem insert_append_right {x : α} {xs ys : List α} (h : ∀ y ∈ xs, key y ≤ key x) :
    insert key x (xs ++ ys) = xs ++ insert key x ys := by
  induction xs with
  | nil => rfl
  | cons z xs ih =>
    have hz : ¬ key x < key z := not_lt.mpr (h z List.mem_cons_self)
    rw [List.cons_append, insert_cons, if_neg hz, ih (fun y hy => h y (List.mem_cons_of_mem z hy))]
    rfl

/-- Nor does what is in the second list matter once the first has an item above it. -/
theorem insert_append_of_lt {x y : α} {xs : List α} (hy : y ∈ xs) (hlt : key x < key y) (ys : List α) :
    insert key x (xs ++ ys) = insert key x xs ++ ys := by
  induction xs with
  | nil => exact absurd hy List.not_mem_nil
  | cons z xs ih =>
    rw [List.cons_append, insert_cons, insert_cons]
    split
    · rfl
    · next hz =>
      rcases List.mem_cons.mp hy with rfl | hy
      · exact absurd hlt hz
      · rw [ih hy]
        rfl

/-- It goes in behind the first items that are not above it. -/
theorem insert_eq (x : α) (xs : List α) :
    insert key x xs = xs.takeWhile (fun y => key y ≤ key x) ++ x :: xs.dropWhile (fun y => key y ≤ key x) := by
  induction xs with
  | nil => rfl
  | cons y xs ih =>
    rw [insert_cons, List.takeWhile_cons, List.dropWhile_cons]
    by_cases hlt : key x < key y
    · rw [if_pos hlt, if_neg (by simpa using hlt), if_neg (by simpa using hlt)]
      rfl
    · rw [if_neg hlt, if_pos (by simpa using hlt), if_pos (by simpa using hlt), ih]
      rfl

/-- An item that is not the highest does not become the last. -/
theorem insert_getLast? {x y : α} {xs : List α} (hy : y ∈ xs) (hlt : key x < key y) :
    (insert key x xs).getLast? = xs.getLast? := by
  have hne : xs.dropWhile (fun y => key y ≤ key x) ≠ [] := by
    intro hnil
    have := List.dropWhile_eq_nil_iff.mp hnil y hy
    exact absurd hlt (not_lt.mpr (of_decide_eq_true this))
  obtain ⟨z, zs, hz⟩ := List.exists_cons_of_ne_nil hne
  conv_rhs => rw [← List.takeWhile_append_dropWhile (p := fun y => decide (key y ≤ key x)) (l := xs)]
  rw [insert_eq, hz, List.getLast?_append_cons, List.getLast?_append_cons, List.getLast?_cons_cons]

/-- Insertion is seen alike through a map that keeps the order of the keys. -/
theorem map_insert {κ' : Type} [LinearOrder κ'] {key' : β → κ'} {f : α → β} {x : α} {xs : List α}
    (h : ∀ y ∈ xs, key x < key y ↔ key' (f x) < key' (f y)) :
    (insert key x xs).map f = insert key' (f x) (xs.map f) := by
  induction xs with
  | nil => rfl
  | cons y xs ih =>
    have ih := ih (fun z hz => h z (List.mem_cons_of_mem y hz))
    rw [List.map_cons, insert_cons, insert_cons]
    by_cases hlt : key x < key y
    · rw [if_pos hlt, if_pos ((h y List.mem_cons_self).mp hlt)]
      rfl
    · rw [if_neg hlt, if_neg (fun hlt' => hlt ((h y List.mem_cons_self).mpr hlt')), List.map_cons, ih]

/-- An item that is not below another goes in behind it. -/
theorem sublist_insert {x y : α} {xs : List α} (hx : x ∈ xs) (hle : key x ≤ key y) (h : InOrder key xs) :
    List.Sublist [x, y] (insert key y xs) := by
  obtain ⟨as, bs, rfl⟩ := List.append_of_mem hx
  have hbefore : ∀ z ∈ as ++ [x], key z ≤ key y := by
    intro z hz
    rcases List.mem_append.mp hz with hz | hz
    · exact ((List.pairwise_append.mp h).2.2 z hz x List.mem_cons_self).trans hle
    · exact List.mem_singleton.mp hz ▸ hle
  rw [List.append_cons, insert_append_right hbefore]
  have hx' : List.Sublist [x] (as ++ [x]) := List.sublist_append_right as [x]
  have hy' : List.Sublist [y] (insert key y bs) := List.singleton_sublist.mpr (mem_insert.mpr (.inl rfl))
  exact hx'.append hy'

/-- Of two items with different keys the lower one comes first. -/
theorem sublist_of_lt {x y : α} {xs : List α} (h : InOrder key xs) (hx : x ∈ xs) (hy : y ∈ xs) (hlt : key x < key y) :
    List.Sublist [x, y] xs := by
  obtain ⟨as, bs, rfl⟩ := List.append_of_mem hx
  have hy' : y ∈ bs := by
    rcases List.mem_append.mp hy with hy | hy
    · exact absurd ((List.pairwise_append.mp h).2.2 y hy x List.mem_cons_self) (not_le.mpr hlt)
    · rcases List.mem_cons.mp hy with rfl | hy
      · exact absurd hlt (lt_irrefl _)
      · exact hy
  exact ((List.singleton_sublist.mpr hy').cons_cons x).trans (List.sublist_append_right as _)

/-! ## A sorted list cut at a bound -/

theorem mem_takeWhile_iff {x : α} {xs : List α} (h : InOrder key xs) (b : κ) :
    x ∈ xs.takeWhile (fun y => key y ≤ b) ↔ x ∈ xs ∧ key x ≤ b := by
  induction xs with
  | nil => simp
  | cons y ys ih =>
    obtain ⟨hy, hys⟩ := List.pairwise_cons.mp h
    by_cases hyb : key y ≤ b
    · rw [List.takeWhile_cons_of_pos (by simpa using hyb), List.mem_cons, List.mem_cons, ih hys]
      refine ⟨?_, ?_⟩
      · rintro (rfl | ⟨hx, hxb⟩)
        · exact ⟨.inl rfl, hyb⟩
        · exact ⟨.inr hx, hxb⟩
      · rintro ⟨rfl | hx, hxb⟩
        · exact .inl rfl
        · exact .inr ⟨hx, hxb⟩
    · rw [List.takeWhile_cons_of_neg (by simpa using hyb)]
      refine ⟨fun hx => absurd hx List.not_mem_nil, ?_⟩
      -- what is behind `y` is no lower than `y`
      rintro ⟨hx, hxb⟩
      rcases List.mem_cons.mp hx with rfl | hx
      · exact absurd hxb hyb
      · exact absurd (le_trans (hy x hx) hxb) hyb

theorem mem_dropWhile_iff {x : α} {xs : List α} (h : InOrder key xs) (b : κ) :
    x ∈ xs.dropWhile (fun y => key y ≤ b) ↔ x ∈ xs ∧ b < key x := by
  induction xs with
  | nil => simp
  | cons y ys ih =>
    obtain ⟨hy, hys⟩ := List.pairwise_cons.mp h
    by_cases hyb : key y ≤ b
    · rw [List.dropWhile_cons_of_pos (by simpa using hyb), ih hys, List.mem_cons]
      refine ⟨fun ⟨hx, hbx⟩ => ⟨.inr hx, hbx⟩, ?_⟩
      rintro ⟨rfl | hx, hbx⟩
      · exact absurd hyb (not_le.mpr hbx)
      · exact ⟨hx, hbx⟩
    · rw [List.dropWhile_cons_of_neg (by simpa using hyb)]
      refine ⟨?_, fun hx => hx.1⟩
      intro hx
      refine ⟨hx, ?_⟩
      rcases List.mem_cons.mp hx with rfl | hx
      · exact not_le.mp hyb
      · exact lt_of_lt_of_le (not_le.mp hyb) (hy x hx)

/-- Where everything in the second list is above the bound, the cut is in the first. -/
theorem takeWhile_append {xs ys : List α} {b : κ} (h : ∀ y ∈ ys, b < key y) :
    (xs ++ ys).takeWhile (fun y => key y ≤ b) = xs.takeWhile (fun y => key y ≤ b) := by
  induction xs with
  | nil =>
    cases ys with
    | nil => rfl
    | cons y ys => exact List.takeWhile_cons_of_neg (by simpa using h y List.mem_cons_self)
  | cons x xs ih =>
    rw [List.cons_append, List.takeWhile_cons, List.takeWhile_cons, ih]

theorem dropWhile_append {xs ys : List α} {b : κ} (h : ∀ y ∈ ys, b < key y) :
    (xs ++ ys).dropWhile (fun y => key y ≤ b) = xs.dropWhile (fun y => key y ≤ b) ++ ys := by
  induction xs with
  | nil =>
    cases ys with
    | nil => rfl
    | cons y ys => exact List.dropWhile_cons_of_neg (by simpa using h y List.mem_cons_self)
  | cons x xs ih =>
    rw [List.cons_append, List.dropWhile_cons, List.dropWhile_cons, ih]
    split
    · rfl
    · rfl

/-- A cut seen through a map. -/
theorem takeWhile_map {f : β → α} {p : β → Bool} {xs : List β} {b : κ} (h : ∀ x, key (f x) ≤ b ↔ p x = true) :
    (xs.map f).takeWhile (fun y => key y ≤ b) = (xs.takeWhile p).map f := by
  have hp : (fun y => decide (key y ≤ b)) ∘ f = p := by
    funext x
    exact Bool.eq_iff_iff.mpr (decide_eq_true_iff.trans (h x))
  rw [List.takeWhile_map, hp]

theorem dropWhile_map {f : β → α} {p : β → Bool} {xs : List β} {b : κ} (h : ∀ x, key (f x) ≤ b ↔ p x = true) :
    (xs.map f).dropWhile (fun y => key y ≤ b) = (xs.dropWhile p).map f := by
  have hp : (fun y => decide (key y ≤ b)) ∘ f = p := by
    funext x
    exact Bool.eq_iff_iff.mpr (decide_eq_true_iff.trans (h x))
  rw [List.dropWhile_map, hp]

theorem dropWhile_inOrder {xs : List α} (h : InOrder key xs) (p : α → Bool) : InOrder key (xs.dropWhile p) :=
  List.Pairwise.sublist (List.dropWhile_sublist p) h

end Sorted
