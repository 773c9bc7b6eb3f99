import Mathlib.Data.List.Chain
import Mathlib.Data.List.Nodup

/- Doubly linked rings: nodes that point to the next one and back, round to a marker. Who
   changes the pointers changes two nodes at a time, and the rest of the ring, as every
   other ring, stays as it is.

   * `ring_append_iff`: a ring cut in two.
   * `Ring.link`, `Ring.unlink`: a node goes in and comes out.
   * `Ring.frame`: a ring whose nodes are not touched. -/

/-- Where each node points to. -/
structure Links (ρ : Type) where
  next : ρ → ρ
  prev : ρ → ρ

namespace Links

variable {ρ : Type} {k k' : Links ρ} {e n : ρ} {as bs xs : List ρ}

/-- Each node of `xs` points to the one after it, and that one back. -/
def Path (k : Links ρ) (xs : List ρ) : Prop := xs.IsChain (fun a b => k.next a = b ∧ k.prev b = a)

/-- The nodes `xs`, in order, form a ring with the marker `e`. -/
structure Ring (k : Links ρ) (e : ρ) (xs : List ρ) : Prop where
  path : k.Path (e :: xs ++ [e])
  nodup : (e :: xs).Nodup

/-- A path depends on where its nodes but the last point to, and on where those but the first
point back to. -/
theorem Path.congr (h : k.Path xs) (hnext : ∀ a ∈ xs.dropLast, k'.next a = k.next a)
    (hprev : ∀ b ∈ xs.tail, k'.prev b = k.prev b) : k'.Path xs := by
  induction xs with
  | nil => exact List.isChain_nil
  | cons a xs ih =>
    cases xs with
    | nil => exact List.isChain_singleton a
    | cons b xs =>
      obtain ⟨⟨hn, hp⟩, htail⟩ := List.isChain_cons_cons.mp h
      refine List.isChain_cons_cons.mpr ⟨⟨?_, ?_⟩, ih htail ?_ ?_⟩
      · rw [hnext a List.mem_cons_self, hn]
      · rw [hprev b List.mem_cons_self, hp]
      · exact fun c hc => hnext c (List.mem_cons_of_mem a hc)
      · exact fun c hc => hprev c (List.mem_cons_of_mem b hc)

theorem head?_concat (e : ρ) (bs : List ρ) : (bs ++ [e]).head? = some (bs.headD e) := by
  cases bs with
  | nil => rfl
  | cons b bs => rfl

/-- A ring cut in two: the last node before the cut and the first one behind it point at each
other. -/
theorem ring_append_iff :
    k.Ring e (as ++ bs) ↔ k.Path (e :: as) ∧ k.Path (bs ++ [e]) ∧
      (k.next (as.getLastD e) = bs.headD e ∧ k.prev (bs.headD e) = as.getLastD e) ∧ (e :: (as ++ bs)).Nodup := by
  have hlast : (e :: as).getLast? = some (as.getLastD e) := by
    rw [List.getLast?_cons, List.getLastD_eq_getLast?]
  have hcut : k.Path (e :: (as ++ bs) ++ [e]) ↔ k.Path (e :: as) ∧ k.Path (bs ++ [e]) ∧
      (k.next (as.getLastD e) = bs.headD e ∧ k.prev (bs.headD e) = as.getLastD e) := by
    have happ : e :: (as ++ bs) ++ [e] = (e :: as) ++ (bs ++ [e]) := by
      rw [List.cons_append, List.append_assoc, List.cons_append]
    rw [Path, happ, List.isChain_append, hlast, head?_concat]
    simp only [Option.mem_some, forall_eq']
    rfl
  refine ⟨?_, ?_⟩
  · rintro ⟨hpath, hnodup⟩
    obtain ⟨has, hbs, hmid⟩ := hcut.mp hpath
    exact ⟨has, hbs, hmid, hnodup⟩
  · rintro ⟨has, hbs, hmid, hnodup⟩
    exact ⟨hcut.mpr ⟨has, hbs, hmid⟩, hnodup⟩

theorem Ring.next_last (h : k.Ring e (as ++ bs)) : k.next (as.getLastD e) = bs.headD e :=
  (ring_append_iff.mp h).2.2.1.1

theorem Ring.prev_first (h : k.Ring e (as ++ bs)) : k.prev (bs.headD e) = as.getLastD e :=
  (ring_append_iff.mp h).2.2.1.2

theorem Ring.next_of_mem (h : k.Ring e (as ++ n :: bs)) : k.next n = bs.headD e := by
  rw [List.append_cons] at h
  have := h.next_last
  rwa [List.getLastD_concat] at this

theorem Ring.next_marker (h : k.Ring e bs) : k.next e = bs.headD e := @Ring.next_last ρ k e [] bs h

/-- A ring none of whose nodes changes. -/
theorem Ring.frame (h : k.Ring e xs) (hsame : ∀ a ∈ e :: xs, k'.next a = k.next a ∧ k'.prev a = k.prev a) :
    k'.Ring e xs := by
  have hmem : ∀ a ∈ e :: xs ++ [e], a ∈ e :: xs := by
    intro a ha
    rcases List.mem_append.mp ha with ha | ha
    · exact ha
    · exact List.mem_singleton.mp ha ▸ List.mem_cons_self
  refine ⟨h.path.congr ?_ ?_, h.nodup⟩
  · exact fun a ha => (hsame a (hmem a (List.dropLast_subset _ ha))).1
  · exact fun a ha => (hsame a (hmem a (List.mem_of_mem_tail ha))).2

theorem headD_mem (e : ρ) (bs : List ρ) : bs.headD e ∈ e :: bs := by
  cases bs with
  | nil => exact List.mem_cons_self
  | cons b bs => exact List.mem_cons_of_mem e List.mem_cons_self

theorem getLastD_mem (e : ρ) (as : List ρ) : as.getLastD e ∈ e :: as := by
  rcases List.eq_nil_or_concat as with rfl | ⟨cs, c, rfl⟩
  · exact List.mem_cons_self
  · rw [List.concat_eq_append, List.getLastD_concat]
    exact List.mem_cons_of_mem e (List.mem_append_right cs List.mem_cons_self)

theorem ne_last (h : (e :: as).Nodup) : ∀ a ∈ (e :: as).dropLast, a ≠ as.getLastD e := by
  rcases List.eq_nil_or_concat as with rfl | ⟨cs, c, rfl⟩
  · exact fun a ha => absurd ha List.not_mem_nil
  · rw [List.concat_eq_append] at h ⊢
    rw [List.getLastD_concat, ← List.cons_append, List.dropLast_concat]
    rintro a ha rfl
    exact List.disjoint_of_nodup_append h ha List.mem_cons_self

theorem ne_first (h : (e :: bs).Nodup) : ∀ b ∈ (bs ++ [e]).tail, b ≠ bs.headD e := by
  cases bs with
  | nil => exact fun b hb => absurd hb List.not_mem_nil
  | cons c bs =>
    rintro b hb rfl
    obtain ⟨he, hc⟩ := List.nodup_cons.mp h
    rcases List.mem_append.mp hb with hb | hb
    · exact (List.nodup_cons.mp hc).1 hb
    · exact he (List.mem_singleton.mp hb ▸ List.mem_cons_self)

/-- The two sides of a cut stay paths while only the pointers across it change. -/
theorem Path.sides (has : k.Path (e :: as)) (hbs : k.Path (bs ++ [e])) (hnodup : (e :: (as ++ bs)).Nodup)
    (hnext : ∀ a ∈ e :: (as ++ bs), a ≠ as.getLastD e → k'.next a = k.next a)
    (hprev : ∀ a ∈ e :: (as ++ bs), a ≠ bs.headD e → k'.prev a = k.prev a) :
    k'.Path (e :: as) ∧ k'.Path (bs ++ [e]) := by
  obtain ⟨he, hasbs⟩ := List.nodup_cons.mp hnodup
  have hdisjoint : ∀ a ∈ as, ∀ b ∈ bs, a ≠ b := fun a ha b hb hab => List.disjoint_of_nodup_append hasbs ha (hab ▸ hb)
  have hleft : (e :: as).Nodup := hnodup.sublist ((List.sublist_append_left as bs).cons_cons e)
  have hright : (e :: bs).Nodup := hnodup.sublist ((List.sublist_append_right as bs).cons_cons e)
  have hmemLeft : ∀ a ∈ e :: as, a ∈ e :: (as ++ bs) := (List.sublist_append_left as bs).cons_cons e |>.subset
  have hmemRight : ∀ b ∈ e :: bs, b ∈ e :: (as ++ bs) := (List.sublist_append_right as bs).cons_cons e |>.subset
  refine ⟨has.congr ?_ ?_, hbs.congr ?_ ?_⟩
  · intro a ha
    exact hnext a (hmemLeft a (List.dropLast_subset _ ha)) (ne_last hleft a ha)
  · intro a ha
    refine hprev a (hmemLeft a (List.mem_cons_of_mem e ha)) ?_
    rintro rfl
    rcases List.mem_cons.mp (headD_mem e bs) with h | h
    · exact he (List.mem_append_left bs (h ▸ ha))
    · exact hdisjoint _ ha _ h rfl
  · intro b hb
    rw [List.dropLast_concat] at hb
    refine hnext b (hmemRight b (List.mem_cons_of_mem e hb)) ?_
    rintro rfl
    rcases List.mem_cons.mp (getLastD_mem e as) with h | h
    · exact he (List.mem_append_right as (h ▸ hb))
    · exact hdisjoint _ h _ hb rfl
  · intro b hb
    refine hprev b (hmemRight b ?_) (ne_first hright b hb)
    rcases List.mem_append.mp (List.mem_of_mem_tail hb) with hb | hb
    · exact List.mem_cons_of_mem e hb
    · exact List.mem_singleton.mp hb ▸ List.mem_cons_self

variable [DecidableEq ρ]

/-- Put `n` between `p` and `q`. -/
def link (k : Links ρ) (p n q : ρ) : Links ρ where
  next := Function.update (Function.update k.next n q) p n
  prev := Function.update (Function.update k.prev n p) q n

/-- Close the gap between `p` and `q`. -/
def unlink (k : Links ρ) (p q : ρ) : Links ρ where
  next := Function.update k.next p q
  prev := Function.update k.prev q p

theorem link_next (p n q a : ρ) : (k.link p n q).next a = if a = p then n else if a = n then q else k.next a := by
  simp only [link, Function.update_apply]

theorem link_prev (p n q a : ρ) : (k.link p n q).prev a = if a = q then n else if a = n then p else k.prev a := by
  simp only [link, Function.update_apply]

theorem unlink_next (p q a : ρ) : (k.unlink p q).next a = if a = p then q else k.next a :=
  Function.update_apply _ _ _ _

theorem unlink_prev (p q a : ρ) : (k.unlink p q).prev a = if a = q then p else k.prev a :=
  Function.update_apply _ _ _ _

/-- **A node goes into a ring.** -/
theorem Ring.link (h : k.Ring e (as ++ bs)) (hn : n ∉ e :: (as ++ bs)) :
    (k.link (as.getLastD e) n (bs.headD e)).Ring e (as ++ n :: bs) := by
  obtain ⟨has, hbs, -, hnodup⟩ := ring_append_iff.mp h
  have hold : ∀ a ∈ e :: (as ++ bs), a ≠ n := fun a ha han => hn (han ▸ ha)
  have hlast : n ≠ as.getLastD e :=
    (hold _ (((List.sublist_append_left as bs).cons_cons e).subset (getLastD_mem e as))).symm
  have hfirst : n ≠ bs.headD e :=
    (hold _ (((List.sublist_append_right as bs).cons_cons e).subset (headD_mem e bs))).symm
  obtain ⟨has', hbs'⟩ : (k.link (as.getLastD e) n (bs.headD e)).Path (e :: as) ∧
      (k.link (as.getLastD e) n (bs.headD e)).Path (bs ++ [e]) := Path.sides has hbs hnodup
    (fun a ha ha' => by rw [link_next, if_neg ha', if_neg (hold a ha)])
    (fun a ha ha' => by rw [link_prev, if_neg ha', if_neg (hold a ha)])
  refine ring_append_iff.mpr ⟨has', ?_, ⟨?_, ?_⟩, ?_⟩
  · refine List.isChain_cons.mpr ⟨?_, hbs'⟩
    intro b hb
    obtain rfl : bs.headD e = b := Option.some.inj ((head?_concat e bs).symm.trans hb)
    rw [link_next, link_prev, if_neg hlast, if_pos rfl, if_pos rfl]
    exact ⟨rfl, rfl⟩
  · rw [link_next, if_pos rfl]
    rfl
  · show (k.link _ n _).prev n = _
    rw [link_prev, if_neg hfirst, if_pos rfl]
  · have hperm : (e :: (as ++ n :: bs)).Perm (n :: e :: (as ++ bs)) :=
      (List.perm_middle.cons e).trans (List.Perm.swap n e _)
    exact hperm.nodup_iff.mpr (List.nodup_cons.mpr ⟨hn, hnodup⟩)

/-- **A node comes out of a ring.** -/
theorem Ring.unlink (h : k.Ring e (as ++ n :: bs)) :
    (k.unlink (as.getLastD e) (bs.headD e)).Ring e (as ++ bs) := by
  have hnodup : (e :: (as ++ bs)).Nodup :=
    h.nodup.sublist (((List.sublist_cons_self n bs).append_left as).cons_cons e)
  obtain ⟨has, hnbs, -, -⟩ := ring_append_iff.mp h
  have hbs : k.Path (bs ++ [e]) := List.IsChain.tail hnbs
  obtain ⟨has', hbs'⟩ : (k.unlink (as.getLastD e) (bs.headD e)).Path (e :: as) ∧
      (k.unlink (as.getLastD e) (bs.headD e)).Path (bs ++ [e]) := Path.sides has hbs hnodup
    (fun a _ ha' => by rw [unlink_next, if_neg ha'])
    (fun a _ ha' => by rw [unlink_prev, if_neg ha'])
  refine ring_append_iff.mpr ⟨has', hbs', ⟨?_, ?_⟩, hnodup⟩
  · rw [unlink_next, if_pos rfl]
  · rw [unlink_prev, if_pos rfl]

end Links
