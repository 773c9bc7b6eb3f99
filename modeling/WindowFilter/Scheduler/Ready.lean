import Mathlib
import WindowFilter.Lib.Cursor

/- The ready lists (`Source/tasks.c`) and the bit map of those that hold a task, as the
   Cortex-M3 port keeps it (`portmacro.h`). That the map is right and that every list
   holds tasks of its own priority are fields of `ReadyLists`, so that lists with a stale
   bit cannot be built.

   * `select_spec`: `taskSELECT_HIGHEST_PRIORITY_TASK` takes the next task, in the order
     of the list's cursor, of the highest priority there is.
   * `select_isSome`: it finds one as long as any task is ready. -/
namespace WindowFilter.Scheduler

abbrev configMAX_PRIORITIES : Nat := 5

abbrev Priority : Type := Fin configMAX_PRIORITIES

/-- `portRECORD_READY_PRIORITY` -/
def portRECORD_READY_PRIORITY (uxPriority : Nat) (uxReadyPriorities : BitVec 32) : BitVec 32 :=
  uxReadyPriorities ||| (1#32 <<< uxPriority)

/-- `portRESET_READY_PRIORITY` -/
def portRESET_READY_PRIORITY (uxPriority : Nat) (uxReadyPriorities : BitVec 32) : BitVec 32 :=
  uxReadyPriorities &&& ~~~(1#32 <<< uxPriority)

/-- `portGET_HIGHEST_PRIORITY`: 31 less the leading zeros. -/
def portGET_HIGHEST_PRIORITY (uxReadyPriorities : BitVec 32) : BitVec 32 := 31#32 - uxReadyPriorities.clz

/-- `pxReadyTasksLists` and `uxTopReadyPriority`. -/
structure ReadyLists (τ : Type) (uxPriority : τ → Priority) where
  pxReadyTasksLists : Priority → Cursor τ
  uxTopReadyPriority : BitVec 32
  recorded : ∀ p : Priority, uxTopReadyPriority.getLsbD p = true ↔ (pxReadyTasksLists p).items ≠ []
  noOther : ∀ i, configMAX_PRIORITIES ≤ i → uxTopReadyPriority.getLsbD i = false
  ofPriority : ∀ p t, t ∈ (pxReadyTasksLists p).items → uxPriority t = p

/-! ## The bit map -/

theorem priority_lt (p : Priority) : p.val < 32 := Nat.lt_trans p.isLt (by decide)

theorem getLsbD_one_shiftLeft {p i : Nat} (hi : i < 32) : (1#32 <<< p).getLsbD i = decide (i = p) := by
  rw [BitVec.getLsbD_shiftLeft, BitVec.getLsbD_one]
  by_cases h : i = p
  · subst h
    simp [hi]
  · by_cases hlt : i < p
    · simp [hlt, h]
    · have : ¬ i - p = 0 := by omega
      simp [h, this]

theorem getLsbD_record {p i : Nat} {x : BitVec 32} (hp : p < 32) :
    (portRECORD_READY_PRIORITY p x).getLsbD i = (x.getLsbD i || decide (i = p)) := by
  rw [portRECORD_READY_PRIORITY, BitVec.getLsbD_or]
  by_cases hi : i < 32
  · rw [getLsbD_one_shiftLeft hi]
  · have hip : ¬ i = p := by omega
    rw [BitVec.getLsbD_of_ge _ _ (by omega : 32 ≤ i), BitVec.getLsbD_of_ge _ _ (by omega : 32 ≤ i)]
    simp [hip]

theorem getLsbD_reset {p i : Nat} {x : BitVec 32} :
    (portRESET_READY_PRIORITY p x).getLsbD i = (x.getLsbD i && !decide (i = p)) := by
  rw [portRESET_READY_PRIORITY, BitVec.getLsbD_and]
  by_cases hi : i < 32
  · rw [BitVec.getLsbD_not, getLsbD_one_shiftLeft hi]
    simp [hi]
  · rw [BitVec.getLsbD_of_ge _ _ (by omega : 32 ≤ i), Bool.false_and, Bool.false_and]

theorem toNat_highest {x : BitVec 32} (hx : x ≠ 0#32) :
    (portGET_HIGHEST_PRIORITY x).toNat = 31 - x.clz.toNat := by
  have hlt : x.clz < 32#32 := BitVec.clz_lt_iff_ne_zero.mpr hx
  rw [BitVec.lt_def] at hlt
  have hlt : x.clz.toNat < 32 := hlt
  rw [portGET_HIGHEST_PRIORITY, BitVec.toNat_sub_of_le]
  · rfl
  · rw [BitVec.le_def]
    show x.clz.toNat ≤ 31
    omega

/-- The bit it finds is set, and none above it is. -/
theorem highest_spec {x : BitVec 32} (hx : x ≠ 0#32) :
    x.getLsbD (portGET_HIGHEST_PRIORITY x).toNat = true ∧
      ∀ i, x.getLsbD i = true → i ≤ (portGET_HIGHEST_PRIORITY x).toNat := by
  rw [toNat_highest hx]
  refine ⟨BitVec.getLsbD_true_clz_of_ne_zero (by decide) hx, ?_⟩
  intro i hi
  have hge : 2 ^ i ≤ x.toNat := Nat.ge_two_pow_of_testBit hi
  have hlt : x.toNat < 2 ^ (32 - x.clz.toNat) := BitVec.toNat_lt_two_pow_sub_clz
  have hpow : i < 32 - x.clz.toNat := (Nat.pow_lt_pow_iff_right (by decide : 1 < 2)).mp (lt_of_le_of_lt hge hlt)
  omega

namespace ReadyLists

variable {τ : Type} {uxPriority : τ → Priority}

/-- As `prvInitialiseTaskLists` leaves them. -/
def empty : ReadyLists τ uxPriority where
  pxReadyTasksLists := fun _ => Cursor.empty
  uxTopReadyPriority := 0#32
  recorded := by simp
  noOther := by simp
  ofPriority := by simp

/-- `t` is in the ready list of its priority. -/
def Ready (r : ReadyLists τ uxPriority) (t : τ) : Prop := t ∈ (r.pxReadyTasksLists (uxPriority t)).items

instance [DecidableEq τ] (r : ReadyLists τ uxPriority) (t : τ) : Decidable (r.Ready t) :=
  inferInstanceAs (Decidable (_ ∈ _))

/-- `prvAddTaskToReadyList` -/
def prvAddTaskToReadyList (t : τ) (r : ReadyLists τ uxPriority) : ReadyLists τ uxPriority where
  pxReadyTasksLists := Function.update r.pxReadyTasksLists (uxPriority t)
    ((r.pxReadyTasksLists (uxPriority t)).insertEnd t)
  uxTopReadyPriority := portRECORD_READY_PRIORITY (uxPriority t) r.uxTopReadyPriority
  recorded := by
    intro p
    rw [getLsbD_record (priority_lt _)]
    by_cases hp : p = uxPriority t
    · subst hp
      rw [Function.update_self]
      have : t ∈ ((r.pxReadyTasksLists (uxPriority t)).insertEnd t).items := Cursor.mem_insertEnd.mpr (.inl rfl)
      simp [List.ne_nil_of_mem this]
    · have hval : ¬ p.val = (uxPriority t).val := fun h => hp (Fin.ext h)
      rw [Function.update_of_ne hp, ← r.recorded p]
      simp [hval]
  noOther := by
    intro i hi
    have := (uxPriority t).isLt
    have hval : ¬ i = (uxPriority t).val := by omega
    rw [getLsbD_record (priority_lt _), r.noOther i hi]
    simp [hval]
  ofPriority := by
    intro p t' ht'
    by_cases hp : p = uxPriority t
    · subst hp
      rw [Function.update_self, Cursor.mem_insertEnd] at ht'
      rcases ht' with rfl | ht'
      · rfl
      · exact r.ofPriority _ _ ht'
    · rw [Function.update_of_ne hp] at ht'
      exact r.ofPriority p t' ht'

/-- `uxListRemove( &( pxTCB->xStateListItem ) )` of a ready task, and the reset of its
bit where the list is then empty. -/
def remove [DecidableEq τ] (t : τ) (r : ReadyLists τ uxPriority) : ReadyLists τ uxPriority where
  pxReadyTasksLists := Function.update r.pxReadyTasksLists (uxPriority t)
    ((r.pxReadyTasksLists (uxPriority t)).remove t)
  uxTopReadyPriority :=
    if ((r.pxReadyTasksLists (uxPriority t)).remove t).items.length = 0 then
      portRESET_READY_PRIORITY (uxPriority t) r.uxTopReadyPriority
    else r.uxTopReadyPriority
  recorded := by
    intro p
    by_cases hp : p = uxPriority t
    · subst hp
      rw [Function.update_self]
      split
      · next hempty => simp [getLsbD_reset, List.length_eq_zero_iff.mp hempty]
      · next hmore =>
        have hnew : ((r.pxReadyTasksLists (uxPriority t)).remove t).items ≠ [] :=
          fun h => hmore (List.length_eq_zero_iff.mpr h)
        obtain ⟨u, hu⟩ := List.exists_mem_of_ne_nil _ hnew
        have hold := List.ne_nil_of_mem (Cursor.mem_of_mem_remove hu)
        simp [r.recorded, hnew, hold]
    · have hval : ¬ p.val = (uxPriority t).val := fun h => hp (Fin.ext h)
      rw [Function.update_of_ne hp, ← r.recorded p]
      split
      · simp [getLsbD_reset, hval]
      · rfl
  noOther := by
    intro i hi
    split
    · rw [getLsbD_reset, r.noOther i hi]
      rfl
    · exact r.noOther i hi
  ofPriority := by
    intro p t' ht'
    by_cases hp : p = uxPriority t
    · subst hp
      rw [Function.update_self] at ht'
      exact r.ofPriority _ _ (Cursor.mem_of_mem_remove ht')
    · rw [Function.update_of_ne hp] at ht'
      exact r.ofPriority p t' ht'

/-- The list of priority `p` after a move of its cursor, which leaves its items. -/
def moveTo (r : ReadyLists τ uxPriority) (p : Priority) (c : Cursor τ)
    (h : c.items = (r.pxReadyTasksLists p).items) : ReadyLists τ uxPriority where
  pxReadyTasksLists := Function.update r.pxReadyTasksLists p c
  uxTopReadyPriority := r.uxTopReadyPriority
  recorded := by
    intro q
    by_cases hq : q = p
    · subst hq
      rw [Function.update_self, h]
      exact r.recorded q
    · rw [Function.update_of_ne hq]
      exact r.recorded q
  noOther := r.noOther
  ofPriority := by
    intro q t ht
    by_cases hq : q = p
    · subst hq
      rw [Function.update_self, h] at ht
      exact r.ofPriority q t ht
    · rw [Function.update_of_ne hq] at ht
      exact r.ofPriority q t ht

/-- `listGET_OWNER_OF_NEXT_ENTRY` on the list of priority `p`. -/
def nextEntry (r : ReadyLists τ uxPriority) (p : Priority) : Option (τ × ReadyLists τ uxPriority) :=
  match h : (r.pxReadyTasksLists p).next with
  | some (t, c) => some (t, r.moveTo p c (Cursor.next_items h))
  | none => none

/-- `taskSELECT_HIGHEST_PRIORITY_TASK`: no result where it would read past the lists. -/
def taskSELECT_HIGHEST_PRIORITY_TASK (r : ReadyLists τ uxPriority) : Option (τ × ReadyLists τ uxPriority) :=
  let uxTopPriority := (portGET_HIGHEST_PRIORITY r.uxTopReadyPriority).toNat
  if h : uxTopPriority < configMAX_PRIORITIES then r.nextEntry ⟨uxTopPriority, h⟩ else none

/-! ## What the operations do -/

theorem ready_iff {r : ReadyLists τ uxPriority} {t : τ} {p : Priority} :
    t ∈ (r.pxReadyTasksLists p).items ↔ r.Ready t ∧ uxPriority t = p := by
  refine ⟨?_, ?_⟩
  · intro h
    have hp := r.ofPriority p t h
    exact ⟨by rw [Ready, hp]; exact h, hp⟩
  · rintro ⟨h, rfl⟩
    exact h

theorem list_add {r : ReadyLists τ uxPriority} {t : τ} (p : Priority) :
    (r.prvAddTaskToReadyList t).pxReadyTasksLists p =
      if p = uxPriority t then (r.pxReadyTasksLists (uxPriority t)).insertEnd t else r.pxReadyTasksLists p :=
  Function.update_apply _ _ _ _

theorem list_remove [DecidableEq τ] {r : ReadyLists τ uxPriority} {t : τ} (p : Priority) :
    (r.remove t).pxReadyTasksLists p =
      if p = uxPriority t then (r.pxReadyTasksLists (uxPriority t)).remove t else r.pxReadyTasksLists p :=
  Function.update_apply _ _ _ _

theorem ready_add {r : ReadyLists τ uxPriority} {t u : τ} :
    (r.prvAddTaskToReadyList t).Ready u ↔ u = t ∨ r.Ready u := by
  rw [Ready, prvAddTaskToReadyList]
  by_cases hp : uxPriority u = uxPriority t
  · simp only [hp, Function.update_self, Cursor.mem_insertEnd, Ready]
  · have hne : u ≠ t := fun h => hp (by rw [h])
    simp only [Function.update_of_ne hp, Ready, hne, false_or]

theorem ready_remove [DecidableEq τ] {r : ReadyLists τ uxPriority} {t u : τ}
    (hnodup : (r.pxReadyTasksLists (uxPriority t)).items.Nodup) :
    (r.remove t).Ready u ↔ u ≠ t ∧ r.Ready u := by
  rw [Ready, remove]
  by_cases hp : uxPriority u = uxPriority t
  · simp only [hp, Function.update_self, Cursor.remove_items hnodup, hnodup.mem_erase_iff, Ready]
  · have hne : u ≠ t := fun h => hp (by rw [h])
    simp only [Function.update_of_ne hp, Ready, ne_eq, hne, not_false_eq_true, true_and]

/-- What `listGET_OWNER_OF_NEXT_ENTRY` does. -/
theorem nextEntry_eq {r r' : ReadyLists τ uxPriority} {p : Priority} {t : τ} (h : r.nextEntry p = some (t, r')) :
    ∃ c, (r.pxReadyTasksLists p).next = some (t, c) ∧
      r'.pxReadyTasksLists = Function.update r.pxReadyTasksLists p c := by
  rw [nextEntry] at h
  split at h
  · next t' c hnext =>
    simp only [Option.some.injEq, Prod.mk.injEq] at h
    obtain ⟨rfl, rfl⟩ := h
    exact ⟨c, hnext, rfl⟩
  · cases h

/-- The bit of a ready task is set, so that the map is not empty. -/
theorem Ready.recorded {r : ReadyLists τ uxPriority} {u : τ} (hu : r.Ready u) :
    r.uxTopReadyPriority.getLsbD (uxPriority u) = true ∧ r.uxTopReadyPriority ≠ 0#32 := by
  have hbit : r.uxTopReadyPriority.getLsbD (uxPriority u) = true := (r.recorded _).mpr (List.ne_nil_of_mem hu)
  refine ⟨hbit, ?_⟩
  intro hzero
  rw [hzero] at hbit
  simp at hbit

/-- The task selected is ready, of the highest priority, and next in its list. -/
theorem select_spec {r r' : ReadyLists τ uxPriority} {t : τ} (h : r.taskSELECT_HIGHEST_PRIORITY_TASK = some (t, r')) :
    r.Ready t ∧ (∀ u, r.Ready u → uxPriority u ≤ uxPriority t) ∧
      ∃ c, (r.pxReadyTasksLists (uxPriority t)).next = some (t, c) ∧
        r'.pxReadyTasksLists = Function.update r.pxReadyTasksLists (uxPriority t) c := by
  rw [taskSELECT_HIGHEST_PRIORITY_TASK] at h
  split at h
  · next htop =>
    obtain ⟨c, hnext, hr'⟩ := nextEntry_eq h
    obtain ⟨hready, hp⟩ := ready_iff.mp (Cursor.next_mem hnext)
    refine ⟨hready, ?_, c, hp ▸ hnext, hp ▸ hr'⟩
    intro u hu
    obtain ⟨hbit, hne⟩ := hu.recorded
    rw [hp, Fin.le_def]
    exact (highest_spec hne).2 _ hbit
  · cases h

/-- A task is selected as long as any is ready. -/
theorem select_isSome {r : ReadyLists τ uxPriority} {u : τ} (hu : r.Ready u) :
    ∃ t r', r.taskSELECT_HIGHEST_PRIORITY_TASK = some (t, r') := by
  have hset := (highest_spec hu.recorded.2).1
  have htop : (portGET_HIGHEST_PRIORITY r.uxTopReadyPriority).toNat < configMAX_PRIORITIES := by
    by_contra hge
    rw [r.noOther _ (Nat.le_of_not_lt hge)] at hset
    cases hset
  obtain ⟨v, hv⟩ := List.exists_mem_of_ne_nil _ ((r.recorded ⟨_, htop⟩).mp hset)
  obtain ⟨t, c, hnext⟩ := Cursor.next_of_mem hv
  refine ⟨t, r.moveTo _ c (Cursor.next_items hnext), ?_⟩
  rw [taskSELECT_HIGHEST_PRIORITY_TASK, dif_pos htop, nextEntry]
  split
  · next t' c' hnext' =>
    rw [hnext] at hnext'
    cases hnext'
    rfl
  · next hnone =>
    rw [hnext] at hnone
    cases hnone

/-- A selection makes no task ready and none unready. -/
theorem ready_select {r r' : ReadyLists τ uxPriority} {t u : τ}
    (h : r.taskSELECT_HIGHEST_PRIORITY_TASK = some (t, r')) : r'.Ready u ↔ r.Ready u := by
  obtain ⟨-, -, c, hnext, hr'⟩ := select_spec h
  rw [Ready, hr']
  by_cases hp : uxPriority u = uxPriority t
  · rw [hp, Function.update_self, Cursor.next_items hnext, Ready, hp]
  · rw [Function.update_of_ne hp, Ready]

/-! ## All the ready tasks -/

/-- The tasks in the lists, each as often as it is there. -/
def tasks (r : ReadyLists τ uxPriority) : Multiset τ := ∑ p : Priority, ((r.pxReadyTasksLists p).items : Multiset τ)

theorem mem_tasks {r : ReadyLists τ uxPriority} {t : τ} : t ∈ r.tasks ↔ r.Ready t := by
  rw [tasks, Multiset.mem_sum]
  refine ⟨?_, ?_⟩
  · rintro ⟨p, -, h⟩
    exact (ready_iff.mp (Multiset.mem_coe.mp h)).1
  · intro h
    exact ⟨uxPriority t, Finset.mem_univ _, Multiset.mem_coe.mpr h⟩

/-- What one list gains, all of them together gain. -/
theorem tasks_update {r r' : ReadyLists τ uxPriority} {p : Priority} {c : Cursor τ}
    (h : r'.pxReadyTasksLists = Function.update r.pxReadyTasksLists p c) :
    r'.tasks + ((r.pxReadyTasksLists p).items : Multiset τ) = r.tasks + (c.items : Multiset τ) := by
  have hold := Finset.add_sum_erase Finset.univ (fun q => ((r.pxReadyTasksLists q).items : Multiset τ)) (Finset.mem_univ p)
  have hnew := Finset.add_sum_erase Finset.univ (fun q => ((r'.pxReadyTasksLists q).items : Multiset τ)) (Finset.mem_univ p)
  have hrest : ∑ q ∈ Finset.univ.erase p, ((r'.pxReadyTasksLists q).items : Multiset τ) =
      ∑ q ∈ Finset.univ.erase p, ((r.pxReadyTasksLists q).items : Multiset τ) := by
    apply Finset.sum_congr rfl
    intro q hq
    rw [h, Function.update_of_ne (Finset.ne_of_mem_erase hq)]
  have hp : r'.pxReadyTasksLists p = c := by rw [h, Function.update_self]
  simp only [hrest, hp] at hnew
  rw [tasks, tasks, ← hold, ← hnew]
  abel

theorem tasks_empty : (empty : ReadyLists τ uxPriority).tasks = 0 := by
  simp [tasks, empty]

theorem tasks_add (r : ReadyLists τ uxPriority) (t : τ) : (r.prvAddTaskToReadyList t).tasks = t ::ₘ r.tasks := by
  have h : (r.prvAddTaskToReadyList t).tasks + _ = r.tasks + _ := tasks_update rfl
  rw [Multiset.coe_eq_coe.mpr (Cursor.insertEnd_perm t _), ← Multiset.cons_coe, Multiset.add_cons,
    ← Multiset.cons_add] at h
  exact add_right_cancel h

theorem list_nodup {r : ReadyLists τ uxPriority} (h : r.tasks.Nodup) (p : Priority) :
    (r.pxReadyTasksLists p).items.Nodup := by
  have hle : ((r.pxReadyTasksLists p).items : Multiset τ) ≤ r.tasks :=
    Finset.single_le_sum (fun _ _ => Multiset.zero_le _) (Finset.mem_univ p)
  exact Multiset.coe_nodup.mp (Multiset.nodup_of_le hle h)

theorem tasks_remove [DecidableEq τ] {r : ReadyLists τ uxPriority} {t : τ} (h : r.tasks.Nodup) (ht : r.Ready t) :
    t ::ₘ (r.remove t).tasks = r.tasks := by
  have hmove : (r.remove t).tasks + _ = r.tasks + _ := tasks_update rfl
  have hperm : ((r.pxReadyTasksLists (uxPriority t)).items : Multiset τ) =
      t ::ₘ (((r.pxReadyTasksLists (uxPriority t)).remove t).items : Multiset τ) := by
    rw [Cursor.remove_items (list_nodup h _), Multiset.cons_coe]
    exact Multiset.coe_eq_coe.mpr (List.perm_cons_erase ht)
  rw [hperm, Multiset.add_cons, ← Multiset.cons_add] at hmove
  exact add_right_cancel hmove

theorem tasks_select {r r' : ReadyLists τ uxPriority} {t : τ} (h : r.taskSELECT_HIGHEST_PRIORITY_TASK = some (t, r')) :
    r'.tasks = r.tasks := by
  obtain ⟨-, -, c, hnext, hr'⟩ := select_spec h
  have hmove := tasks_update hr'
  rw [Cursor.next_items hnext] at hmove
  exact add_right_cancel hmove

/-- Several tasks made ready, one after the other. -/
def addAll (ts : List τ) (r : ReadyLists τ uxPriority) : ReadyLists τ uxPriority :=
  ts.foldl (fun r t => r.prvAddTaskToReadyList t) r

theorem addAll_cons (t : τ) (ts : List τ) (r : ReadyLists τ uxPriority) :
    r.addAll (t :: ts) = (r.prvAddTaskToReadyList t).addAll ts := rfl

theorem tasks_addAll (ts : List τ) (r : ReadyLists τ uxPriority) : (r.addAll ts).tasks = (ts : Multiset τ) + r.tasks := by
  induction ts generalizing r with
  | nil => exact (zero_add _).symm
  | cons t ts ih => rw [addAll_cons, ih, tasks_add, ← Multiset.cons_coe, Multiset.add_cons, Multiset.cons_add]

theorem ready_addAll {ts : List τ} {r : ReadyLists τ uxPriority} {u : τ} :
    (r.addAll ts).Ready u ↔ u ∈ ts ∨ r.Ready u := by
  rw [← mem_tasks, tasks_addAll, Multiset.mem_add, Multiset.mem_coe, mem_tasks]

end ReadyLists

end WindowFilter.Scheduler
