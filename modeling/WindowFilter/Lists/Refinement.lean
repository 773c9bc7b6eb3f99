import WindowFilter.Lib.Links
import WindowFilter.Lib.Cursor
import WindowFilter.Lists.Model

/- The linked lists are lists. To whoever calls the functions of `list.c` a list is a
   sequence of items with a cursor: `vListInsertEnd` puts an item just behind the cursor's
   round, `vListInsert` by its value, `uxListRemove` takes it out, and
   `listGET_OWNER_OF_NEXT_ENTRY` moves the cursor on. Whatever calls are made, on however
   many lists, the pointers answer as the sequences do (`lists_refine`), the loop of
   `vListInsert` ends, and an item is never in two lists.

   `Sequences` is the abstract state, `Shows` the relation between the two. -/
namespace WindowFilter.Lists
open Steps

variable {ι κ τ : Type}

/-! ## Sequences with a cursor -/

/-- The lists that have been initialised, and where each item that has been is, if in one. -/
structure Sequences (ι κ τ : Type) where
  lists : κ → Option (Cursor ι)
  container : ι → Option (Option κ)
  value : ι → UInt32
  owner : ι → τ

/-- Nothing is initialised, and the items hold what memory holds. -/
def Sequences.fresh (m : Memory ι κ τ) : Sequences ι κ τ where
  lists := fun _ => none
  container := fun _ => none
  value := fun i => m.xItemValue (.item i)
  owner := m.pvOwner

/-- The nodes of the list `l`, from its end marker on. -/
def nodes (l : κ) (c : Cursor ι) : List (Node ι κ) := .xListEnd l :: c.items.map .item

/-- Where `pxIndex` points. -/
def index (l : κ) (c : Cursor ι) : Node ι κ := (c.rest.map .item).getD (.xListEnd l)

def Memory.links (m : Memory ι κ τ) : Links (Node ι κ) := ⟨m.pxNext, m.pxPrevious⟩

theorem index_eq_item {l : κ} {c : Cursor ι} {i : ι} : index l c = .item i ↔ c.rest = some i := by
  rw [index]
  cases c.rest with
  | none => simp
  | some j => simp

/-- The list `l` of memory is the sequence `c`. -/
structure ShowsList (m : Memory ι κ τ) (l : κ) (c : Cursor ι) : Prop where
  ring : m.links.Ring (.xListEnd l) (c.items.map .item)
  index_eq : m.pxIndex l = index l c
  count : m.uxNumberOfItems l = UInt32.ofNat c.items.length
  marker : m.xItemValue (.xListEnd l) = portMAX_DELAY

/-- Memory is the sequences `a`. -/
structure Shows (m : Memory ι κ τ) (a : Sequences ι κ τ) : Prop where
  list : ∀ l c, a.lists l = some c → ShowsList m l c
  contained : ∀ i l, a.container i = some (some l) ↔ ∃ c, a.lists l = some c ∧ i ∈ c.items
  container_eq : ∀ i k, a.container i = some k → m.pxContainer i = k
  value_eq : ∀ i, m.xItemValue (.item i) = a.value i
  owner_eq : m.pvOwner = a.owner

section
variable [DecidableEq ι] [DecidableEq κ]

/-- What both insertions do, once they know between which nodes. -/
def putBetween (p q : Node ι κ) (l : κ) (i : ι) (m : Memory ι κ τ) : Memory ι κ τ :=
  { m with pxNext := (m.links.link p (.item i) q).next,
           pxPrevious := (m.links.link p (.item i) q).prev,
           pxContainer := Function.update m.pxContainer i (some l),
           uxNumberOfItems := Function.update m.uxNumberOfItems l (m.uxNumberOfItems l + 1) }

/-- The sequences once `i` has come into the list `l`, which is then `c`. -/
def put (l : κ) (i : ι) (c : Cursor ι) (a : Sequences ι κ τ) : Sequences ι κ τ :=
  { a with lists := Function.update a.lists l (some c), container := Function.update a.container i (some (some l)) }

/-- What `uxListRemove` does to memory, for an item between `p` and `q`. -/
def takeBetween (p q : Node ι κ) (l : κ) (i : ι) (m : Memory ι κ τ) : Memory ι κ τ :=
  { m with pxNext := (m.links.unlink p q).next,
           pxPrevious := (m.links.unlink p q).prev,
           pxIndex := if m.pxIndex l = .item i then Function.update m.pxIndex l p else m.pxIndex,
           pxContainer := Function.update m.pxContainer i none,
           uxNumberOfItems := Function.update m.uxNumberOfItems l (m.uxNumberOfItems l - 1) }

def take (l : κ) (i : ι) (c : Cursor ι) (a : Sequences ι κ τ) : Sequences ι κ τ :=
  { a with lists := Function.update a.lists l (some (c.remove i)), container := Function.update a.container i (some none) }

end

namespace ShowsList

variable {m m' : Memory ι κ τ} {l : κ} {c : Cursor ι}

theorem nodup (h : ShowsList m l c) : c.items.Nodup := ((List.nodup_cons.mp h.ring.nodup).2).of_map _

/-- A list whose nodes are not touched. -/
theorem frame (h : ShowsList m l c)
    (hlinks : ∀ n ∈ nodes l c, m'.pxNext n = m.pxNext n ∧ m'.pxPrevious n = m.pxPrevious n)
    (hindex : m'.pxIndex l = m.pxIndex l) (hcount : m'.uxNumberOfItems l = m.uxNumberOfItems l)
    (hmarker : m'.xItemValue (.xListEnd l) = m.xItemValue (.xListEnd l)) : ShowsList m' l c :=
  ⟨h.ring.frame hlinks, hindex.trans h.index_eq, hcount.trans h.count, hmarker.trans h.marker⟩

end ShowsList

theorem shows_fresh (m : Memory ι κ τ) : Shows m (Sequences.fresh m) :=
  ⟨nofun, by simp [Sequences.fresh], nofun, fun _ => rfl, rfl⟩

namespace Shows

variable {m : Memory ι κ τ} {a : Sequences ι κ τ}

theorem free_of_container (h : Shows m a) {i : ι} (hi : a.container i = some none) {l : κ} {c : Cursor ι}
    (hl : a.lists l = some c) : i ∉ c.items := by
  intro hmem
  have := (h.contained i l).mpr ⟨c, hl, hmem⟩
  rw [hi] at this
  cases this

/-- Two lists have no node in common. -/
theorem apart (h : Shows m a) {l l' : κ} {c c' : Cursor ι} (hl : a.lists l = some c) (hl' : a.lists l' = some c')
    (hne : l ≠ l') {n : Node ι κ} (hn : n ∈ nodes l c) : n ∉ nodes l' c' := by
  intro hn'
  rcases List.mem_cons.mp hn with rfl | hn
  · rcases List.mem_cons.mp hn' with heq | hn'
    · exact hne (Node.xListEnd.inj heq)
    · obtain ⟨i, -, heq⟩ := List.mem_map.mp hn'
      cases heq
  · obtain ⟨i, hi, rfl⟩ := List.mem_map.mp hn
    rcases List.mem_cons.mp hn' with heq | hn'
    · cases heq
    · obtain ⟨j, hj, heq⟩ := List.mem_map.mp hn'
      cases heq
      have h₁ := (h.contained i l).mpr ⟨c, hl, hi⟩
      have h₂ := (h.contained i l').mpr ⟨c', hl', hj⟩
      rw [h₁] at h₂
      exact hne (Option.some.inj (Option.some.inj h₂))

/-- A list that keeps its sequence while another one changes. -/
theorem list_frame (h : Shows m a) {m' : Memory ι κ τ} {l l' : κ} {c c' : Cursor ι} (hl : a.lists l = some c)
    (hl' : a.lists l' = some c') (hne : l' ≠ l)
    (hlinks : ∀ n, n ∉ nodes l c → (∀ i, n = .item i → a.container i ≠ some none) →
      m'.pxNext n = m.pxNext n ∧ m'.pxPrevious n = m.pxPrevious n)
    (hindex : m'.pxIndex l' = m.pxIndex l') (hcount : m'.uxNumberOfItems l' = m.uxNumberOfItems l')
    (hmarker : m'.xItemValue (.xListEnd l') = m.xItemValue (.xListEnd l')) : ShowsList m' l' c' := by
  refine (h.list l' c' hl').frame ?_ hindex hcount hmarker
  intro n hn
  refine hlinks n (h.apart hl' hl hne hn) ?_
  rintro i rfl hfree
  rcases List.mem_cons.mp hn with heq | hn
  · cases heq
  · obtain ⟨j, hj, heq⟩ := List.mem_map.mp hn
    cases heq
    exact h.free_of_container hfree hl' hj

theorem mem_of_container (h : Shows m a) {l : κ} {i : ι} {c : Cursor ι} (hl : a.lists l = some c)
    (hi : a.container i = some (some l)) : i ∈ c.items := by
  obtain ⟨c', hc', hmem⟩ := (h.contained i l).mp hi
  rw [hl] at hc'
  exact Option.some.inj hc' ▸ hmem

variable [DecidableEq ι] [DecidableEq κ]

/-! ## An item goes in -/

theorem shows_put (h : Shows m a) {l : κ} {i : ι} {c c' : Cursor ι} {as bs : List ι} (hl : a.lists l = some c)
    (hi : a.container i = some none) (hitems : c.items = as ++ bs) (hitems' : c'.items = as ++ i :: bs)
    (hrest : c'.rest = c.rest) :
    Shows (putBetween ((as.map .item).getLastD (.xListEnd l)) ((bs.map .item).headD (.xListEnd l)) l i m)
      (put l i c' a) := by
  have hshows := h.list l c hl
  have hring := hshows.ring
  rw [hitems, List.map_append] at hring
  have hnew : Node.item i ∉ Node.xListEnd l :: ((as.map Node.item) ++ (bs.map Node.item)) := by
    rw [← List.map_append, ← hitems]
    intro hmem
    rcases List.mem_cons.mp hmem with heq | hmem
    · cases heq
    · obtain ⟨j, hj, heq⟩ := List.mem_map.mp hmem
      cases heq
      exact h.free_of_container hi hl hj
  refine ⟨?_, ?_, ?_, h.value_eq, h.owner_eq⟩
  · intro l' d hd
    by_cases hne : l' = l
    · subst hne
      simp only [put, Function.update_self, Option.some.injEq] at hd
      subst hd
      refine ⟨?_, ?_, ?_, hshows.marker⟩
      · rw [hitems', List.map_append, List.map_cons]
        exact hring.link hnew
      · rw [index, hrest]
        exact hshows.index_eq
      · have hlength : c'.items.length = c.items.length + 1 := by
          rw [hitems', hitems, List.length_append, List.length_append, List.length_cons, Nat.add_assoc]
        rw [hlength, UInt32.ofNat_add, ← hshows.count]
        exact Function.update_self _ _ _
    · have hd' : a.lists l' = some d := (Function.update_of_ne hne _ _).symm.trans hd
      refine h.list_frame hl hd' hne ?_ rfl (Function.update_of_ne hne _ _) rfl
      intro n hn hfree
      have hni : n ≠ .item i := fun heq => hfree i heq hi
      have hmem : ∀ {n'}, n' ∈ Node.xListEnd l :: (as ++ bs).map Node.item → n ≠ n' := by
        rintro n' hn' rfl
        exact hn (by rw [nodes, hitems]; exact hn')
      rw [List.map_append] at hmem
      have hnp := hmem (((List.sublist_append_left _ _).cons_cons _).subset (Links.getLastD_mem _ _))
      have hnq := hmem (((List.sublist_append_right _ _).cons_cons _).subset (Links.headD_mem _ _))
      simp only [putBetween, Links.link_next, Links.link_prev, if_neg hnp, if_neg hnq, if_neg hni]
      exact ⟨rfl, rfl⟩
  · intro j l'
    have hperm : c'.items.Perm (i :: c.items) := by
      rw [hitems', hitems]
      exact List.perm_middle
    simp only [put, Function.update_apply]
    by_cases hj : j = i
    · subst hj
      rw [if_pos rfl]
      by_cases hne : l' = l
      · subst hne
        simp [hperm.mem_iff]
      · simp only [if_neg hne, Option.some.injEq]
        refine ⟨fun heq => absurd heq.symm hne, ?_⟩
        rintro ⟨d, hd, hmem⟩
        exact absurd hmem (h.free_of_container hi hd)
    · rw [if_neg hj, h.contained]
      by_cases hne : l' = l
      · subst hne
        simp [hperm.mem_iff, hj, hl]
      · rw [if_neg hne]
  · intro j k hk
    simp only [put, putBetween, Function.update_apply] at hk ⊢
    split
    · next hj =>
      rw [if_pos hj] at hk
      exact Option.some.inj hk
    · next hj =>
      rw [if_neg hj] at hk
      exact h.container_eq j k hk

/-! ## An item comes out -/

theorem shows_take (h : Shows m a) {l : κ} {i : ι} {c : Cursor ι} (hl : a.lists l = some c)
    (hi : a.container i = some (some l)) :
    Shows (takeBetween (m.pxPrevious (.item i)) (m.pxNext (.item i)) l i m) (take l i c a) := by
  have hshows := h.list l c hl
  have hmem := h.mem_of_container hl hi
  obtain ⟨as, bs, hitems, hitems', hrest⟩ := Cursor.remove_cases hmem hshows.nodup
  have hring := hshows.ring
  rw [hitems, List.map_append, List.map_cons] at hring
  have hnext : m.pxNext (.item i) = (bs.map .item).headD (.xListEnd l) := hring.next_of_mem
  have hprev : m.pxPrevious (.item i) = (as.map .item).getLastD (.xListEnd l) := hring.prev_first
  have hremoved := Cursor.remove_items (x := i) hshows.nodup
  rw [hnext, hprev]
  refine ⟨?_, ?_, ?_, h.value_eq, h.owner_eq⟩
  · intro l' d hd
    by_cases hne : l' = l
    · subst hne
      simp only [take, Function.update_self, Option.some.injEq] at hd
      subst hd
      refine ⟨?_, ?_, ?_, hshows.marker⟩
      · rw [hitems', List.map_append]
        exact hring.unlink
      · simp only [takeBetween, hshows.index_eq, index_eq_item]
        split
        · next hi =>
          rw [Function.update_self, index, hrest, if_pos hi, List.getLastD_eq_getLast?, List.getLast?_map]
        · next hi =>
          rw [index, hrest, if_neg hi]
          exact hshows.index_eq
      · have hlength : c.items.length = (c.remove i).items.length + 1 := by
          rw [hitems', hitems, List.length_append, List.length_append, List.length_cons, Nat.add_assoc]
        simp only [takeBetween, Function.update_self]
        rw [hshows.count, hlength, UInt32.ofNat_add]
        exact UInt32.add_sub_cancel _ _
    · have hd' : a.lists l' = some d := (Function.update_of_ne hne _ _).symm.trans hd
      refine h.list_frame hl hd' hne ?_ ?_ (Function.update_of_ne hne _ _) rfl
      · intro n hn _
        have hne : ∀ {n'}, n' ∈ Node.xListEnd l :: (as ++ i :: bs).map Node.item → n ≠ n' := by
          rintro n' hn' rfl
          exact hn (by rw [nodes, hitems]; exact hn')
        rw [List.map_append, List.map_cons] at hne
        have hnp := hne (((List.sublist_append_left _ _).cons_cons _).subset (Links.getLastD_mem _ _))
        have hnq := hne ((((List.sublist_cons_self _ _).trans (List.sublist_append_right _ _)).cons_cons _).subset
          (Links.headD_mem _ _))
        simp only [takeBetween, Links.unlink_next, Links.unlink_prev, if_neg hnp, if_neg hnq]
        exact ⟨rfl, rfl⟩
      · simp only [takeBetween]
        split
        · exact Function.update_of_ne hne _ _
        · rfl
  · intro j l'
    have hmem' : ∀ k, k ∈ (c.remove i).items ↔ k ≠ i ∧ k ∈ c.items := by
      intro k
      rw [hremoved, hshows.nodup.mem_erase_iff]
    simp only [take, Function.update_apply]
    by_cases hj : j = i
    · subst hj
      rw [if_pos rfl]
      refine ⟨fun heq => absurd (Option.some.inj heq) nofun, ?_⟩
      rintro ⟨d, hd, hmem⟩
      by_cases hne : l' = l
      · rw [if_pos hne, Option.some.injEq] at hd
        subst hd
        exact absurd rfl ((hmem' j).mp hmem).1
      · rw [if_neg hne] at hd
        have hj := (h.contained j l').mpr ⟨d, hd, hmem⟩
        rw [hi, Option.some.injEq, Option.some.injEq] at hj
        exact absurd hj.symm hne
    · rw [if_neg hj, h.contained]
      by_cases hne : l' = l
      · subst hne
        simp [hmem', hj, hl]
      · rw [if_neg hne]
  · intro j k hk
    simp only [take, takeBetween, Function.update_apply] at hk ⊢
    split
    · next hj =>
      rw [if_pos hj] at hk
      exact Option.some.inj hk
    · next hj =>
      rw [if_neg hj] at hk
      exact h.container_eq j k hk

end Shows

/-! ## The functions, in one piece each -/

variable [DecidableEq ι] [DecidableEq κ] {m : Memory ι κ τ} {a a' : Sequences ι κ τ} {l : κ} {i : ι} {c : Cursor ι}

theorem vListInsertEnd_eq (hindex : m.pxIndex l ≠ .item i) :
    vListInsertEnd l i m = putBetween (m.pxPrevious (m.pxIndex l)) (m.pxIndex l) l i m := by
  simp only [vListInsertEnd, putBetween, Links.link, Memory.links, Function.update_of_ne hindex]

/-- What `vListInsert` does behind `pxIterator`. -/
theorem vListInsert_eq {passes : Nat} {p : Node ι κ}
    (hp : (if m.xItemValue (.item i) = portMAX_DELAY then some (m.pxPrevious (.xListEnd l))
      else insertionPoint (m.xItemValue (.item i)) m passes (.xListEnd l)) = some p)
    (hnext : m.pxNext p ≠ .item i) :
    vListInsert passes l i m = some (putBetween p (m.pxNext p) l i m) := by
  simp only [vListInsert, hp, Option.map_some, Function.update_self, putBetween, Links.link, Memory.links]
  rw [Function.update_comm hnext]

theorem uxListRemove_eq (hl : m.pxContainer i = some l) (hnext : m.pxNext (.item i) ≠ .item i) :
    uxListRemove i m = some (takeBetween (m.pxPrevious (.item i)) (m.pxNext (.item i)) l i m,
      m.uxNumberOfItems l - 1) := by
  simp only [uxListRemove, hl, Option.map_some, takeBetween, Links.unlink, Memory.links,
    Function.update_of_ne hnext.symm]
  split
  · simp
  · simp

theorem eq_of_portMAX_DELAY_le {x : UInt32} (h : portMAX_DELAY ≤ x) : x = portMAX_DELAY := by
  have hle : 4294967295 ≤ x.toNat := UInt32.le_iff_toNat_le.mp h
  have hlt := x.toNat_lt
  apply UInt32.toNat_inj.mp
  show x.toNat = 4294967295
  omega

omit [DecidableEq ι] [DecidableEq κ] in
/-- **The loop of `vListInsert` ends**, behind the items whose value is no greater. -/
theorem insertionPoint_spec {x : UInt32} (hx : x ≠ portMAX_DELAY)
    (hmarker : m.xItemValue (.xListEnd l) = portMAX_DELAY) {passes : Nat} {is : List ι} {r : Node ι κ}
    (hpath : m.links.Path (r :: (is.map .item ++ [.xListEnd l]))) (hpasses : is.length < passes) :
    insertionPoint x m passes r =
      some (((is.takeWhile (fun j => m.xItemValue (.item j) ≤ x)).map .item).getLastD r) := by
  induction is generalizing r passes with
  | nil =>
    obtain ⟨n, rfl⟩ := Nat.exists_eq_succ_of_ne_zero (Nat.ne_of_gt hpasses)
    obtain ⟨⟨hnext, -⟩, -⟩ := List.isChain_cons_cons.mp hpath
    have hnext : m.pxNext r = .xListEnd l := hnext
    have hlt : ¬ portMAX_DELAY ≤ x := fun hle => hx (eq_of_portMAX_DELAY_le hle)
    rw [insertionPoint, hnext, hmarker, if_neg hlt]
    rfl
  | cons j is ih =>
    obtain ⟨n, rfl⟩ := Nat.exists_eq_succ_of_ne_zero (Nat.ne_of_gt (Nat.zero_lt_of_lt hpasses))
    obtain ⟨⟨hnext, -⟩, htail⟩ := List.isChain_cons_cons.mp hpath
    have hnext : m.pxNext r = .item j := hnext
    rw [insertionPoint, hnext]
    split
    · next hle =>
      rw [ih htail (Nat.lt_of_succ_lt_succ hpasses), List.takeWhile_cons_of_pos (by simpa using hle), List.map_cons,
        List.getLastD_cons]
    · next hgt =>
      rw [List.takeWhile_cons_of_neg (by simpa using hgt)]
      rfl

/-- The cursor moves on, past the end marker. -/
theorem listGET_OWNER_OF_NEXT_ENTRY_eq (h : ShowsList m l c) {c' : Cursor ι} (hnext : c.next = some (i, c')) :
    listGET_OWNER_OF_NEXT_ENTRY l m =
        some (m.pvOwner i, { m with pxIndex := Function.update m.pxIndex l (.item i) }) ∧
      c'.rest = some i := by
  have hring := h.ring
  have hindex : m.pxIndex l = (c.before.map .item).getLastD (.xListEnd l) := by
    rw [h.index_eq, index, Cursor.rest, List.getLastD_eq_getLast?, List.getLast?_map]
  rw [Cursor.items, List.map_append] at hring
  have hlast : m.pxNext (m.pxIndex l) = (c.after.map .item).headD (.xListEnd l) := hindex ▸ hring.next_last
  rcases c with ⟨before, _ | ⟨y, ys⟩⟩
  · cases before with
    | nil => cases hnext
    | cons b bs =>
      cases hnext
      have hfirst : m.pxNext (.xListEnd l) = .item i := h.ring.next_marker
      refine ⟨?_, rfl⟩
      simp only [List.map_nil, List.headD_nil] at hlast
      simp only [listGET_OWNER_OF_NEXT_ENTRY, hlast, Function.update_self, if_true, hfirst, Function.update_idem]
      rfl
  · cases hnext
    simp only [List.map_cons, List.headD_cons] at hlast
    refine ⟨?_, List.getLast?_concat⟩
    simp only [listGET_OWNER_OF_NEXT_ENTRY, hlast, Function.update_self, reduceCtorEq, if_false]
    rfl

omit [DecidableEq ι] [DecidableEq κ] in
/-- The node behind the end marker: the first item, or the marker again. -/
theorem head_eq (h : ShowsList m l c) : m.pxNext (.xListEnd l) = (c.items.head?.map .item).getD (.xListEnd l) := by
  have hfirst : m.pxNext (.xListEnd l) = (c.items.map .item).headD (.xListEnd l) :=
    h.ring.next_marker
  rw [hfirst, List.headD_eq_head?_getD, List.head?_map]

omit [DecidableEq ι] [DecidableEq κ] in
theorem listGET_OWNER_OF_HEAD_ENTRY_eq (h : Shows m a) (hl : a.lists l = some c) :
    listGET_OWNER_OF_HEAD_ENTRY l m = c.items.head?.map a.owner := by
  rw [listGET_OWNER_OF_HEAD_ENTRY, head_eq (h.list l c hl), ← h.owner_eq]
  cases c.items.head? with
  | none => rfl
  | some j => rfl

omit [DecidableEq ι] [DecidableEq κ] in
theorem listGET_ITEM_VALUE_OF_HEAD_ENTRY_eq (h : Shows m a) (hl : a.lists l = some c) :
    listGET_ITEM_VALUE_OF_HEAD_ENTRY l m = (c.items.head?.map a.value).getD portMAX_DELAY := by
  rw [listGET_ITEM_VALUE_OF_HEAD_ENTRY, head_eq (h.list l c hl)]
  cases c.items.head? with
  | none => exact (h.list l c hl).marker
  | some j => exact h.value_eq j

/-- A list comes into being. -/
theorem shows_initialise (h : Shows m a) (hl : a.lists l = none) :
    Shows (vListInitialise l m) { a with lists := Function.update a.lists l (some .empty) } := by
  refine ⟨?_, ?_, h.container_eq, ?_, h.owner_eq⟩
  · intro l' d hd
    by_cases hne : l' = l
    · subst hne
      simp only [Function.update_self, Option.some.injEq] at hd
      subst hd
      refine ⟨⟨?_, List.nodup_singleton _⟩, Function.update_self _ _ _, Function.update_self _ _ _,
        Function.update_self _ _ _⟩
      exact List.isChain_cons_cons.mpr
        ⟨⟨Function.update_self _ _ _, Function.update_self _ _ _⟩, List.isChain_singleton _⟩
    · have hd' : a.lists l' = some d := (Function.update_of_ne hne _ _).symm.trans hd
      have hother : ∀ n ∈ nodes l' d, n ≠ .xListEnd l := by
        rintro n hn rfl
        rcases List.mem_cons.mp hn with heq | hn
        · exact hne (Node.xListEnd.inj heq).symm
        · obtain ⟨j, -, heq⟩ := List.mem_map.mp hn
          cases heq
      refine (h.list l' d hd').frame ?_ (Function.update_of_ne hne _ _) (Function.update_of_ne hne _ _)
        (Function.update_of_ne (hother _ List.mem_cons_self) _ _)
      intro n hn
      exact ⟨Function.update_of_ne (hother n hn) _ _, Function.update_of_ne (hother n hn) _ _⟩
  · intro j l'
    rw [h.contained]
    simp only [Function.update_apply]
    by_cases hne : l' = l
    · subst hne
      simp [hl, Cursor.empty, Cursor.items]
    · rw [if_neg hne]
  · intro j
    have hne : Node.item j ≠ Node.xListEnd l := by simp
    simp only [vListInitialise, Function.update_of_ne hne]
    exact h.value_eq j

/-- The cursor of a list moves. -/
theorem shows_next (h : Shows m a) (hl : a.lists l = some c) {c' : Cursor ι} (hnext : c.next = some (i, c')) :
    listGET_OWNER_OF_NEXT_ENTRY l m = some (a.owner i, { m with pxIndex := Function.update m.pxIndex l (.item i) }) ∧
      Shows { m with pxIndex := Function.update m.pxIndex l (.item i) }
        { a with lists := Function.update a.lists l (some c') } := by
  have hshows := h.list l c hl
  obtain ⟨heq, hrest⟩ := listGET_OWNER_OF_NEXT_ENTRY_eq hshows hnext
  have hitems := Cursor.next_items hnext
  refine ⟨congrFun h.owner_eq i ▸ heq, ?_, ?_, h.container_eq, h.value_eq, h.owner_eq⟩
  · intro l' d hd
    by_cases hne : l' = l
    · subst hne
      simp only [Function.update_self, Option.some.injEq] at hd
      subst hd
      refine ⟨?_, ?_, ?_, hshows.marker⟩
      · rw [hitems]
        exact hshows.ring
      · rw [index, hrest]
        exact Function.update_self _ _ _
      · rw [hitems]
        exact hshows.count
    · have hd' : a.lists l' = some d := (Function.update_of_ne hne _ _).symm.trans hd
      exact (h.list l' d hd').frame (fun _ _ => ⟨rfl, rfl⟩) (Function.update_of_ne hne _ _) rfl rfl
  · intro j l'
    rw [h.contained]
    simp only [Function.update_apply]
    by_cases hne : l' = l
    · subst hne
      simp [hl, hitems]
    · rw [if_neg hne]

theorem shows_insertEnd (h : Shows m a) (hl : a.lists l = some c) (hi : a.container i = some none) :
    Shows (vListInsertEnd l i m) (put l i (c.insertEnd i) a) := by
  have hshows := h.list l c hl
  have hring := hshows.ring
  have hrest := Cursor.insertEnd_rest i c
  have hindex := hshows.index_eq
  have hfree : m.pxIndex l ≠ .item i := by
    rw [hindex, Ne, index_eq_item]
    intro heq
    exact h.free_of_container hi hl (List.mem_append_left _ (List.mem_of_getLast? heq))
  rw [vListInsertEnd_eq hfree]
  obtain ⟨hbefore, hput⟩ | ⟨bs, y, hbefore, hput⟩ := Cursor.insertEnd_cases i c
  · -- the cursor rests on the end marker
    have hmarker : m.pxIndex l = .xListEnd l := by
      rw [hindex, index, Cursor.rest, hbefore]
      rfl
    have hitems : c.items = c.after ++ [] := by rw [Cursor.items, hbefore, List.nil_append, List.append_nil]
    rw [hitems, List.map_append] at hring
    have hprev : m.pxPrevious (.xListEnd l) = (c.after.map .item).getLastD (.xListEnd l) := hring.prev_first
    rw [hmarker, hprev]
    exact h.shows_put hl hi hitems (hput ▸ rfl) hrest
  · have hy : m.pxIndex l = .item y := by
      rw [hindex, index, Cursor.rest, hbefore, List.getLast?_concat]
      rfl
    have hitems : c.items = bs ++ y :: c.after := by rw [Cursor.items, hbefore, List.append_assoc]; rfl
    rw [hitems, List.map_append] at hring
    have hprev : m.pxPrevious (.item y) = (bs.map .item).getLastD (.xListEnd l) := hring.prev_first
    rw [hy, hprev]
    refine h.shows_put hl hi hitems ?_ hrest
    rw [hput, Cursor.items, List.append_assoc]
    rfl

theorem shows_insert {passes : Nat} (h : Shows m a) (hl : a.lists l = some c) (hi : a.container i = some none)
    (hpasses : c.items.length < passes) :
    ∃ m', vListInsert passes l i m = some m' ∧ Shows m' (put l i (c.insertBy (fun j => (a.value j).toNat) i) a) := by
  have hshows := h.list l c hl
  -- once the loop has ended behind the items `as`
  have hput : ∀ as bs, c.items = as ++ bs →
      Sorted.insert (fun j => (a.value j).toNat) i c.items = as ++ i :: bs →
      (if m.xItemValue (.item i) = portMAX_DELAY then some (m.pxPrevious (.xListEnd l))
        else insertionPoint (m.xItemValue (.item i)) m passes (.xListEnd l)) =
        some ((as.map .item).getLastD (.xListEnd l)) →
      ∃ m', vListInsert passes l i m = some m' ∧ Shows m' (put l i (c.insertBy (fun j => (a.value j).toNat) i) a) := by
    intro as bs hitems hinsert hp
    have hring := hshows.ring
    rw [hitems, List.map_append] at hring
    have hnext : m.pxNext ((as.map .item).getLastD (.xListEnd l)) = (bs.map .item).headD (.xListEnd l) := hring.next_last
    have hfree : m.pxNext ((as.map .item).getLastD (.xListEnd l)) ≠ .item i := by
      rw [hnext]
      intro heq
      have hmem := Links.headD_mem (.xListEnd l) (bs.map Node.item)
      rw [heq] at hmem
      rcases List.mem_cons.mp hmem with heq | hmem
      · cases heq
      · obtain ⟨j, hj, heq⟩ := List.mem_map.mp hmem
        cases heq
        exact h.free_of_container hi hl (hitems ▸ List.mem_append_right as hj)
    refine ⟨_, vListInsert_eq hp hfree, ?_⟩
    rw [hnext]
    exact h.shows_put hl hi hitems ((Cursor.insertBy_items _ i c).trans hinsert) (Cursor.insertBy_rest _ i c)
  by_cases hmax : m.xItemValue (.item i) = portMAX_DELAY
  · have hle : ∀ j ∈ c.items, (a.value j).toNat ≤ (a.value i).toNat := by
      intro j _
      rw [← h.value_eq i, hmax]
      exact Nat.le_of_lt_succ (a.value j).toNat_lt
    have hring := hshows.ring
    rw [← List.append_nil (c.items.map Node.item)] at hring
    refine hput c.items [] (List.append_nil _).symm ?_ ?_
    · have hend : Sorted.insert (fun j => (a.value j).toNat) i (c.items ++ []) = c.items ++ Sorted.insert _ i [] :=
        Sorted.insert_append_right hle
      rwa [List.append_nil, Sorted.insert_nil] at hend
    · rw [if_pos hmax]
      exact congrArg some hring.prev_first
  · have hvalue : (fun j => decide ((a.value j).toNat ≤ (a.value i).toNat)) =
        fun j => decide (m.xItemValue (.item j) ≤ m.xItemValue (.item i)) := by
      funext j
      rw [h.value_eq, h.value_eq]
      exact decide_eq_decide.mpr UInt32.le_iff_toNat_le.symm
    refine hput (c.items.takeWhile (fun j => m.xItemValue (.item j) ≤ m.xItemValue (.item i)))
      (c.items.dropWhile (fun j => m.xItemValue (.item j) ≤ m.xItemValue (.item i)))
      List.takeWhile_append_dropWhile.symm ?_ ?_
    · rw [Sorted.insert_eq, hvalue]
    · rw [if_neg hmax]
      exact insertionPoint_spec hmax hshows.marker hshows.ring.path hpasses

theorem shows_remove (h : Shows m a) (hl : a.lists l = some c) (hi : a.container i = some (some l)) :
    ∃ m', uxListRemove i m = some (m', UInt32.ofNat (c.items.length - 1)) ∧ Shows m' (take l i c a) := by
  have hshows := h.list l c hl
  have hmem := h.mem_of_container hl hi
  obtain ⟨as, bs, hitems⟩ := List.append_of_mem hmem
  have hring := hshows.ring
  rw [hitems, List.map_append, List.map_cons] at hring
  have hnext : m.pxNext (.item i) ≠ .item i := by
    have hfirst : m.pxNext (.item i) = (bs.map .item).headD (.xListEnd l) := hring.next_of_mem
    rw [hfirst]
    intro heq
    have hfirst := Links.headD_mem (.xListEnd l) (bs.map Node.item)
    rw [heq] at hfirst
    have hnodup : (as.map Node.item ++ Node.item i :: bs.map Node.item).Nodup := (List.nodup_cons.mp hring.nodup).2
    rcases List.mem_cons.mp hfirst with heq | hmem
    · cases heq
    · exact (List.nodup_cons.mp (List.nodup_append.mp hnodup).2.1).1 hmem
  have hcount : m.uxNumberOfItems l - 1 = UInt32.ofNat (c.items.length - 1) := by
    obtain ⟨n, hn⟩ := Nat.exists_eq_succ_of_ne_zero (Nat.ne_of_gt (List.length_pos_of_mem hmem))
    rw [hshows.count, hn, Nat.succ_eq_add_one, UInt32.ofNat_add, Nat.add_sub_cancel]
    exact UInt32.add_sub_cancel _ _
  exact ⟨_, by rw [uxListRemove_eq (h.container_eq i _ hi) hnext, hcount], h.shows_take hl hi⟩

/-! ## Every call -/

variable [DecidableEq τ]

/-- What a call does to the sequences, and what it answers. An item that goes in is in no list,
and a list or an item is initialised once. -/
def Sequences.step (a : Sequences ι κ τ) : Call ι κ τ → Option (Sequences ι κ τ)
  | .initialise l =>
    if (a.lists l).isNone then some { a with lists := Function.update a.lists l (some .empty) } else none
  | .initialiseItem i =>
    if a.container i = none then some { a with container := Function.update a.container i (some none) } else none
  | .setValue i x => some { a with value := Function.update a.value i x }
  | .setOwner i t => some { a with owner := Function.update a.owner i t }
  | .insertEnd l i => (a.lists l).bind fun c =>
    if a.container i = some none then some (put l i (c.insertEnd i) a) else none
  | .insert l i => (a.lists l).bind fun c =>
    if a.container i = some none then some (put l i (c.insertBy (fun j => (a.value j).toNat) i) a) else none
  | .remove i left => (a.container i).join.bind fun l => (a.lists l).bind fun c =>
    if UInt32.ofNat (c.items.length - 1) = left then some (take l i c a) else none
  | .nextOwner l t => (a.lists l).bind fun c => c.next.bind fun r =>
    if a.owner r.1 = t then some { a with lists := Function.update a.lists l (some r.2) } else none
  | .headOwner l t => (a.lists l).bind fun c => if c.items.head?.map a.owner = some t then some a else none
  | .headValue l x => (a.lists l).bind fun c =>
    if (c.items.head?.map a.value).getD portMAX_DELAY = x then some a else none
  | .isEmpty l b => (a.lists l).bind fun c => if c.items.isEmpty = b then some a else none
  | .length l n => (a.lists l).bind fun c => if UInt32.ofNat c.items.length = n then some a else none
  | .container i k => if a.container i = some k then some a else none

/-- **Memory answers as the sequences do**, and stays what they are. -/
theorem shows_step {passes : Nat} {call : Call ι κ τ} (h : Shows m a)
    (hpasses : ∀ l c, a.lists l = some c → c.items.length < passes)
    (hitems : ∀ l c, a.lists l = some c → c.items.length < 2 ^ 32) (hs : a.step call = some a') :
    ∃ m', step passes m call = some m' ∧ Shows m' a' := by
  cases call with
  | initialise l =>
    obtain ⟨hl, hs⟩ := Option.ite_none_right_eq_some.mp hs
    cases hs
    exact ⟨_, rfl, shows_initialise h (Option.isNone_iff_eq_none.mp hl)⟩
  | initialiseItem i =>
    obtain ⟨hi, hs⟩ := Option.ite_none_right_eq_some.mp hs
    cases hs
    refine ⟨_, rfl, fun l c hl => (h.list l c hl).frame (fun _ _ => ⟨rfl, rfl⟩) rfl rfl rfl, ?_, ?_, h.value_eq,
      h.owner_eq⟩
    · intro j l
      rw [← h.contained]
      simp only [Function.update_apply]
      split
      · next hj =>
        subst hj
        simp [hi]
      · rfl
    · intro j k hk
      simp only [vListInitialiseItem, Function.update_apply] at hk ⊢
      split
      · next hj =>
        rw [if_pos hj] at hk
        exact Option.some.inj hk
      · next hj =>
        rw [if_neg hj] at hk
        exact h.container_eq j k hk
  | setValue i x =>
    cases hs
    refine ⟨_, rfl, fun l c hl => (h.list l c hl).frame (fun _ _ => ⟨rfl, rfl⟩) rfl rfl ?_, h.contained,
      h.container_eq, ?_, h.owner_eq⟩
    · have hne : Node.xListEnd l ≠ Node.item i := nofun
      simp only [listSET_LIST_ITEM_VALUE, Function.update_of_ne hne]
    · intro j
      simp only [listSET_LIST_ITEM_VALUE, Function.update_apply, Node.item.injEq, h.value_eq]
  | setOwner i t =>
    cases hs
    refine ⟨_, rfl, fun l c hl => (h.list l c hl).frame (fun _ _ => ⟨rfl, rfl⟩) rfl rfl rfl, h.contained,
      h.container_eq, h.value_eq, ?_⟩
    simp only [listSET_LIST_ITEM_OWNER, h.owner_eq]
  | insertEnd l i =>
    obtain ⟨c, hl, hs⟩ := Option.bind_eq_some_iff.mp hs
    obtain ⟨hi, hs⟩ := Option.ite_none_right_eq_some.mp hs
    cases hs
    exact ⟨_, rfl, shows_insertEnd h hl hi⟩
  | insert l i =>
    obtain ⟨c, hl, hs⟩ := Option.bind_eq_some_iff.mp hs
    obtain ⟨hi, hs⟩ := Option.ite_none_right_eq_some.mp hs
    cases hs
    exact shows_insert h hl hi (hpasses l c hl)
  | remove i left =>
    obtain ⟨l, hi, hs⟩ := Option.bind_eq_some_iff.mp hs
    obtain ⟨c, hl, hs⟩ := Option.bind_eq_some_iff.mp hs
    obtain ⟨hleft, hs⟩ := Option.ite_none_right_eq_some.mp hs
    cases hs
    obtain ⟨m', hm', hshows⟩ := shows_remove h hl (Option.join_eq_some_iff.mp hi)
    refine ⟨m', ?_, hshows⟩
    rw [step, hm', Option.bind_some]
    exact if_pos hleft
  | nextOwner l t =>
    obtain ⟨c, hl, hs⟩ := Option.bind_eq_some_iff.mp hs
    obtain ⟨⟨i, c'⟩, hnext, hs⟩ := Option.bind_eq_some_iff.mp hs
    obtain ⟨ht, hs⟩ := Option.ite_none_right_eq_some.mp hs
    cases hs
    obtain ⟨heq, hshows⟩ := shows_next h hl hnext
    refine ⟨_, ?_, hshows⟩
    rw [step, heq, Option.bind_some]
    exact if_pos ht
  | headOwner l t =>
    obtain ⟨c, hl, hs⟩ := Option.bind_eq_some_iff.mp hs
    obtain ⟨ht, hs⟩ := Option.ite_none_right_eq_some.mp hs
    cases hs
    exact ⟨m, if_pos ((listGET_OWNER_OF_HEAD_ENTRY_eq h hl).trans ht), h⟩
  | headValue l x =>
    obtain ⟨c, hl, hs⟩ := Option.bind_eq_some_iff.mp hs
    obtain ⟨hx, hs⟩ := Option.ite_none_right_eq_some.mp hs
    cases hs
    exact ⟨m, if_pos ((listGET_ITEM_VALUE_OF_HEAD_ENTRY_eq h hl).trans hx), h⟩
  | isEmpty l b =>
    obtain ⟨c, hl, hs⟩ := Option.bind_eq_some_iff.mp hs
    obtain ⟨hb, hs⟩ := Option.ite_none_right_eq_some.mp hs
    cases hs
    have hempty : listLIST_IS_EMPTY l m = c.items.isEmpty := by
      have hlt := hitems l c hl
      rw [listLIST_IS_EMPTY, (h.list l c hl).count, Bool.eq_iff_iff, decide_eq_true_iff, List.isEmpty_iff_length_eq_zero,
        ← UInt32.toNat_inj, UInt32.toNat_ofNat_of_lt' hlt]
      rfl
    exact ⟨m, if_pos (hempty.trans hb), h⟩
  | length l n =>
    obtain ⟨c, hl, hs⟩ := Option.bind_eq_some_iff.mp hs
    obtain ⟨hn, hs⟩ := Option.ite_none_right_eq_some.mp hs
    cases hs
    exact ⟨m, if_pos ((h.list l c hl).count.trans hn), h⟩
  | container i k =>
    obtain ⟨hk, hs⟩ := Option.ite_none_right_eq_some.mp hs
    cases hs
    exact ⟨m, if_pos (h.container_eq i k hk), h⟩

/-- **The linked lists are sequences.** -/
theorem lists_refine [Fintype ι] (hcard : Fintype.card ι < 2 ^ 32) {passes : Nat} (hpasses : Fintype.card ι < passes)
    (m : Memory ι κ τ) {calls : List (Call ι κ τ)} (hrun : exec Sequences.step (Sequences.fresh m) calls = some a) :
    ∃ m', exec (step passes) m calls = some m' ∧ Shows m' a := by
  refine exec_matches (R := fun a m => Shows m a) ?_ hrun (shows_fresh m)
  intro a call a' m h hs
  have hitems : ∀ l c, a.lists l = some c → c.items.length ≤ Fintype.card ι :=
    fun l c hl => (h.list l c hl).nodup.length_le_card
  exact shows_step h (fun l c hl => (hitems l c hl).trans_lt hpasses) (fun l c hl => (hitems l c hl).trans_lt hcard) hs

/-- Memory before any call. -/
def blank : Memory (Fin 3) Unit Nat :=
  ⟨fun _ => 0, fun _ => .item 0, fun _ => .item 0, fun _ => 7, fun _ => none, fun _ => 0, fun _ => .item 0⟩

/-- Three items of a list kept by value, of which the lowest is taken out again. -/
def threeItems : List (Call (Fin 3) Unit Nat) :=
  [.initialise (), .initialiseItem 0, .initialiseItem 1, .initialiseItem 2, .setValue 0 5, .setValue 1 3, .setValue 2 5,
    .setOwner 1 8, .insert () 0, .insert () 1, .insert () 2, .headOwner () 8, .headValue () 3, .remove 1 2,
    .headValue () 5, .container 1 none]

theorem lists_refine_three : ∃ m', exec (step 4) blank threeItems = some m' ∧ m'.uxNumberOfItems () = 2 := by
  have hrun : exec Sequences.step (Sequences.fresh blank) threeItems = some _ := rfl
  obtain ⟨m', hm', hshows⟩ := lists_refine (by decide) (show Fintype.card (Fin 3) < 4 by decide) blank hrun
  exact ⟨m', hm', (hshows.list () _ rfl).count⟩

end WindowFilter.Lists
