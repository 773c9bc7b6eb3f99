import WindowFilter.Scheduler.Running

/- Tasks of equal priority take turns. While a task stays ready, the switches that pass it
   over for others of its priority are at most twice the number of those others
   (`served_within`), whatever blocks, wakes or is deleted meanwhile. -/
namespace WindowFilter.Scheduler
open Steps

variable {τ ε : Type} {uxPriority : τ → Priority}

variable [DecidableEq τ]

namespace ReadyLists

/-- Tasks that become ready get no turn before `x`. -/
theorem turns_addAll {x : τ} (n : Nat) (ts : List τ) {r : ReadyLists τ uxPriority} (hx : r.Ready x) :
    ((r.addAll ts).pxReadyTasksLists (uxPriority x)).turns n x = (r.pxReadyTasksLists (uxPriority x)).turns n x := by
  induction ts generalizing r with
  | nil => rfl
  | cons t ts ih =>
    rw [addAll_cons, ih (ready_add.mpr (.inr hx)), list_add]
    split
    · next hp =>
      rw [← hp]
      exact Cursor.turns_insertEnd n hx t
    · rfl

theorem turns_remove {x t : τ} (n : Nat) {r : ReadyLists τ uxPriority} (ht : t ≠ x) :
    ((r.remove t).pxReadyTasksLists (uxPriority x)).turns n x ≤ (r.pxReadyTasksLists (uxPriority x)).turns n x := by
  rw [list_remove]
  split
  · next hp =>
    rw [← hp]
    exact Cursor.turns_remove n ht
  · exact Nat.le_refl _

end ReadyLists

variable [DecidableEq ε] {idle : τ} {s s' : State τ ε uxPriority} {e : Event ε}

/-- The task the step switches to, if it is a switch. -/
def selected (idle : τ) (s : State τ ε uxPriority) (e : Event ε) : Option τ :=
  if e = .pendSV ∧ s.uxSchedulerSuspended = 0 then (step idle s e).map State.pxCurrentTCB else none

def switchesTo (idle : τ) (p : Priority) (s : State τ ε uxPriority) (e : Event ε) : Bool :=
  (selected idle s e).map uxPriority = some p

/-- A bound on the switches to tasks of its priority before `x` has its turn. -/
def turns (n : Nat) (x : τ) (s : State τ ε uxPriority) : Nat :=
  (s.ready.pxReadyTasksLists (uxPriority x)).turns n x

theorem turns_resume (hcount : 0 < s.uxCurrentNumberOfTasks) {x : τ} (n : Nat) (hx : s.ready.Ready x) :
    turns n x (xTaskResumeAll s).1 = turns n x s := by
  by_cases hlast : s.uxSchedulerSuspended ≤ 1
  · have hreleased : (released s).ready.Ready x ∧ turns n x (released s) = turns n x s :=
      ⟨ReadyLists.ready_addAll.mpr (.inr hx), ReadyLists.turns_addAll n _ hx⟩
    rw [xTaskResumeAll_last hcount hlast]
    refine (countPended_inv (I := fun u => u.ready.Ready x ∧ turns n x u = turns n x s) ?_ _ rfl hreleased).2
    rintro u hu ⟨hready, hturns⟩
    rw [xTaskIncrementTick_eq hu]
    exact ⟨ReadyLists.ready_addAll.mpr (.inr hready), (ReadyLists.turns_addAll n _ hready).trans hturns⟩
  · rw [xTaskResumeAll_nested (by omega)]
    rfl

omit [DecidableEq ε] in
theorem stays_of_remove {x : τ} (hgood : Good idle s) {t : τ} (hx' : (s.ready.remove t).Ready x) : t ≠ x := by
  rintro rfl
  exact ((ReadyLists.ready_remove (ReadyLists.list_nodup hgood.filed.ready_nodup _)).mp hx').1 rfl

/-- **A switch to another task of its priority brings `x` nearer**, and nothing puts it off. -/
theorem turns_step {x : τ} {n : Nat} (hgood : Good idle s) (hs : step idle s e = some s') (hx : s.ready.Ready x)
    (hx' : s'.ready.Ready x) (hn : (s.ready.pxReadyTasksLists (uxPriority x)).items.length ≤ n)
    (hpassed : selected idle s e ≠ some x) :
    turns n x s' + (if switchesTo idle (uxPriority x) s e then 1 else 0) ≤ turns n x s := by
  have hcount := hgood.filed.count_pos
  have hnoSwitch : e ≠ .pendSV → switchesTo idle (uxPriority x) s e = false := by
    intro he
    rw [switchesTo, selected, if_neg (fun h => he h.1)]
    rfl
  have hother : e ≠ .pendSV → turns n x s' ≤ turns n x s →
      turns n x s' + (if switchesTo idle (uxPriority x) s e then 1 else 0) ≤ turns n x s := by
    intro he hle
    rw [hnoSwitch he]
    exact hle
  cases step_cases hs with
  | tickCounted hresumed =>
    refine hother nofun ?_
    rw [xTaskIncrementTick_eq hresumed]
    exact Nat.le_of_eq (ReadyLists.turns_addAll n _ hx)
  | tickPended hsuspended => exact hother nofun (Nat.le_refl _)
  | switchContext s' hpend hs' =>
    obtain ⟨hsuspended, rfl⟩ | ⟨hresumed, t, r, hselect, hs'⟩ := vTaskSwitchContext_cases hs'
    · have hnone : switchesTo idle (uxPriority x) s .pendSV = false := by
        rw [switchesTo, selected, if_neg (fun h => absurd h.2 (Nat.pos_iff_ne_zero.mp hsuspended))]
        rfl
      rw [hnone]
      exact Nat.le_refl _
    · have hselected : selected idle s .pendSV = some t := by
        rw [selected, if_pos ⟨rfl, hresumed⟩, hs, hs']
        rfl
      have htx : t ≠ x := by
        rintro rfl
        exact hpassed hselected
      obtain ⟨-, -, c, hnext, hr⟩ := ReadyLists.select_spec hselect
      have hturns : turns n x s' = (r.pxReadyTasksLists (uxPriority x)).turns n x := by rw [hs', turns]
      rw [hturns, hr, switchesTo, hselected]
      by_cases hp : uxPriority x = uxPriority t
      · have hnext : (s.ready.pxReadyTasksLists (uxPriority x)).next = some (t, c) := hp ▸ hnext
        rw [← hp, Function.update_self]
        simp only [Option.map_some, hp, decide_true, if_true]
        exact Cursor.turns_next hx hn hnext htx
      · rw [Function.update_of_ne hp]
        simp [turns, Ne.symm hp]
  | wakeReady l u us hl hresumed =>
    exact hother nofun (Nat.le_of_eq (ReadyLists.turns_addAll n [u] hx))
  | wakeHeld l u us hl hsuspended => exact hother nofun (Nat.le_refl _)
  | unlockHeld l u us hl hsuspended => exact hother nofun (Nat.le_refl _)
  | suspend hat => exact hother nofun (Nat.le_refl _)
  | resumeYielding hat hsuspended hyield => exact hother nofun (Nat.le_of_eq (turns_resume hcount n hx))
  | resume thenYield hat hsuspended hyield => exact hother nofun (Nat.le_of_eq (turns_resume hcount n hx))
  | delay xTicksToDelay hblock =>
    exact hother nofun (ReadyLists.turns_remove n (stays_of_remove hgood hx'))
  | place l xTicksToWait hblock => exact hother nofun (Nat.le_refl _)
  | delayPlaced xTicksToWait hpc hpend =>
    exact hother nofun (ReadyLists.turns_remove n (stays_of_remove hgood hx'))
  | yield hat => exact hother nofun (Nat.le_refl _)
  | delete hat hresumed hidle => exact hother nofun (ReadyLists.turns_remove n (stays_of_remove hgood hx'))
  | cleanUp hat hidle hpos => exact hother nofun (Nat.le_refl _)

omit [DecidableEq τ] [DecidableEq ε] in
theorem list_length_le (hgood : Good idle s) {ts : List τ} (hle : places s ≤ ts) (p : Priority) :
    (s.ready.pxReadyTasksLists p).items.length ≤ (ts.filter (fun t => uxPriority t = p)).length := by
  have hnodup := ReadyLists.list_nodup hgood.filed.ready_nodup p
  refine (List.subperm_of_subset hnodup ?_).length_le
  intro t ht
  obtain ⟨hready, hp⟩ := ReadyLists.ready_iff.mp ht
  have hmem : t ∈ ts := Multiset.mem_coe.mp (Multiset.mem_of_le hle (mem_places.mpr (.inl hready)))
  exact List.mem_filter.mpr ⟨hmem, decide_eq_true hp⟩

/-- **A ready task has its turn.** -/
theorem served_within {t : τ} {ts : List τ} (hnodup : (t :: ts).Nodup) (hidle : idle ∈ t :: ts) {x : τ}
    {es₀ es : List (Event ε)} {s₀ : State τ ε uxPriority} (h₀ : exec (step idle) (start t ts) es₀ = some s₀)
    (hrun : exec (step idle) s₀ es = some s) (hready : Always (step idle) (fun u => u.ready.Ready x) s₀ es)
    (hpassed : AllSteps (step idle) (fun u e => selected idle u e ≠ some x) s₀ es) :
    countSteps (step idle) (switchesTo idle (uxPriority x)) s₀ es ≤
      2 * (((t :: ts).filter (fun u => uxPriority u = uxPriority x)).length - 1) := by
  have hgood := good_exec hnodup hidle h₀
  have hplaces : places s₀ ≤ (t :: ts : List τ) := by
    obtain ⟨gone, hgone, -⟩ := places_exec hnodup hidle h₀
    exact hgone ▸ Multiset.le_add_left _ _
  have hx := always_head hready
  -- the bound on the switches is lowered by each of them, in every state that keeps the invariant
  have hcount : countSteps (step idle) (switchesTo idle (uxPriority x)) s₀ es +
      turns ((t :: ts).filter (fun u => uxPriority u = uxPriority x)).length x s ≤
      turns ((t :: ts).filter (fun u => uxPriority u = uxPriority x)).length x s₀ := by
    refine countSteps_le (I := fun u => Good idle u ∧ places u ≤ (t :: ts : List τ)) ?_ hrun
      (allSteps_of_always hready hpassed) ⟨hgood, hplaces⟩
    rintro u e v ⟨hgood, hle⟩ ⟨hother, hready, hstays⟩ hs
    refine ⟨⟨good_step hgood (step_cases hs), (places_step_le hgood hs).trans hle⟩, ?_⟩
    exact turns_step hgood hs hready (hstays v hs) (list_length_le hgood hle _) hother
  calc countSteps (step idle) (switchesTo idle (uxPriority x)) s₀ es
      ≤ turns ((t :: ts).filter (fun u => uxPriority u = uxPriority x)).length x s₀ := le_trans (Nat.le_add_right _ _) hcount
    _ ≤ 2 * (((t :: ts).filter (fun u => uxPriority u = uxPriority x)).length - 1) :=
      Cursor.turns_le hx (list_length_le hgood hplaces _)

/-- The sensor has the first time slice, before `vTaskUpdateN`. -/
theorem served_within_slice :
    countSteps (step .idle) (switchesTo .idle 3) (start .sensor [.updateN, .idle] : State Task Waiting Task.uxPriority)
      [.tick, .pendSV] ≤ 2 :=
  served_within (x := Task.updateN) (t := Task.sensor) (by decide) (by decide) (s := _) (exec_nil _) rfl (by decide)
    (by decide)

end WindowFilter.Scheduler
