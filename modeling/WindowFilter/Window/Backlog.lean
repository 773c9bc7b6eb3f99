import WindowFilter.Window.Model

/- How full can `xUpdateNQueue` get? Nothing throttles the bytes, and an item leaves
   the queue only when the updater is scheduled. The depth is the commands handled
   minus the items received (`backlog_eq`), so the handler finds room exactly when
   that difference never exceeds the queue's length (`room_iff_backlog`). -/
namespace WindowFilter.Window
open Steps

/-- A run of the handler on a command byte. -/
def IsCommand : Event → Bool
  | .isr c => (delta c).isSome
  | .updater _ => false

/-- The commands handled in a run. -/
def commandsIn (es : List Event) : Nat := es.countP IsCommand

/-- The items the updater receives in a run. -/
def receivesIn (es : List Event) : Nat := es.count (.updater .receive)

/-- A command finds room in the queue, so its `xQueueSend` does not wait for space. -/
def FindsRoom (w : State) (e : Event) : Prop :=
  IsCommand e = true → w.xUpdateNQueue.items.length < queueLength

instance (w : State) (e : Event) : Decidable (FindsRoom w e) := by
  unfold FindsRoom; infer_instance

theorem commandsIn_snoc (es : List Event) (e : Event) :
    commandsIn (es ++ [e]) = commandsIn es + if IsCommand e = true then 1 else 0 := by
  simp only [commandsIn, List.countP_append, List.countP_cons, List.countP_nil, Nat.zero_add]

theorem receivesIn_snoc (es : List Event) (e : Event) :
    receivesIn (es ++ [e]) = receivesIn es + if e = .updater .receive then 1 else 0 := by
  simp only [receivesIn, List.count_append, List.count_singleton, beq_iff_eq]

theorem step_room {w w' : State} {e : Event} (h : step w e = some w') (hroom : FindsRoom w e) :
    w'.isrWaiting = false := by
  obtain ⟨hrun, hcases⟩ := step_cases h
  rcases hcases with ⟨c, _, _, rfl⟩ | ⟨c, d, q, _, _, _, rfl⟩ | ⟨c, d, rfl, hd, hfull, rfl⟩ |
    ⟨N, q, _, _, _, rfl⟩ | ⟨_, _, rfl⟩ | ⟨_, _, rfl⟩
  · exact hrun
  · exact hrun
  · have := hroom (by simp only [IsCommand, hd, Option.isSome_some])
    omega
  · exact hrun
  · exact hrun
  · exact hrun

theorem step_length {w w' : State} {e : Event} (h : step w e = some w') (hw : w'.isrWaiting = false) :
    w'.xUpdateNQueue.items.length + (if e = .updater .receive then 1 else 0) =
      w.xUpdateNQueue.items.length + (if IsCommand e = true then 1 else 0) := by
  rcases (step_cases h).2 with ⟨c, rfl, hd, rfl⟩ | ⟨c, d, q, rfl, hd, hsend, rfl⟩ | ⟨c, d, _, _, _, rfl⟩ |
    ⟨N, q, rfl, _, hq, rfl⟩ | ⟨rfl, _, rfl⟩ | ⟨rfl, _, rfl⟩
  · simp [IsCommand, hd]
  · have hq : q.items.length = w.xUpdateNQueue.items.length + 1 := by
      rw [(Fifo.send_eq_some.mp hsend).2, List.length_append, List.length_singleton]
    simp [IsCommand, hd, afterSend, hq]
  · cases hw
  · simp [IsCommand, hq]
  · simp [IsCommand]
  · simp [IsCommand]

theorem running_of_room {es : List Event} {w : State} (h : exec step init es = some w)
    (hroom : AllSteps step FindsRoom init es) : w.isrWaiting = false := by
  refine exec_inv_of (I := fun w => w.isrWaiting = false) ?_ h hroom rfl
  intro u e v _ hfinds hstep
  exact step_room hstep hfinds

/-- The depth of the queue is the commands handled minus the items received. -/
theorem backlog_eq {es : List Event} {w : State} (h : exec step init es = some w)
    (hw : w.isrWaiting = false) :
    w.xUpdateNQueue.items.length + receivesIn es = commandsIn es := by
  induction es using List.reverseRecOn generalizing w with
  | nil =>
    rw [exec_nil, Option.some.injEq] at h
    subst h
    rfl
  | append_singleton es e ih =>
    obtain ⟨v, hv, hstep⟩ := exec_snoc.mp h
    have hlen := step_length hstep hw
    have := ih hv (step_cases hstep).1
    rw [commandsIn_snoc, receivesIn_snoc]
    omega

/-- **The handler finds room exactly while the backlog is bounded.** In every run, each
command finds fewer than 50 items in the queue, and the handler is never left waiting
for space, if and only if at no point of the run the commands handled exceed the items
the updater has received by more than 50. -/
theorem room_iff_backlog {es : List Event} {w : State} (h : exec step init es = some w) :
    (AllSteps step FindsRoom init es ∧ w.isrWaiting = false) ↔
      ∀ bs, bs <+: es → commandsIn bs ≤ receivesIn bs + queueLength := by
  refine ⟨?_, ?_⟩
  · rintro ⟨hroom, -⟩ bs ⟨cs, rfl⟩
    obtain ⟨v, hv, -⟩ := exec_append.mp h
    have hbs := ((allSteps_append hv).mp hroom).1
    have hrun := running_of_room hv hbs
    calc commandsIn bs
        = v.xUpdateNQueue.items.length + receivesIn bs := (backlog_eq hv hrun).symm
      _ ≤ queueLength + receivesIn bs := Nat.add_le_add_right v.xUpdateNQueue.bounded _
      _ = receivesIn bs + queueLength := Nat.add_comm _ _
  · intro hbound
    have hroom : AllSteps step FindsRoom init es := by
      by_contra hno
      -- the first command without room finds 50 items, one less than the backlog it makes
      obtain ⟨bs, e, cs, v, v', rfl, hv, -, he, hstep, -⟩ := exec_breaks h hno
      have heq := backlog_eq hv (step_cases hstep).1
      have hle := hbound (bs ++ [e]) ⟨cs, by simp⟩
      simp only [FindsRoom, Classical.not_imp, Nat.not_lt] at he
      rw [commandsIn_snoc, receivesIn_snoc, if_pos he.1] at hle
      have hne : e ≠ .updater .receive := by
        rintro rfl
        cases he.1
      rw [if_neg hne] at hle
      omega
    exact ⟨hroom, running_of_room h hroom⟩

/-- Fifty commands, and one more when the updater has received the first. -/
def burst : List Event := List.replicate 50 (.isr byteU) ++ [.updater .receive, .isr byteD]

theorem room_iff_backlog_burst :
    (AllSteps step FindsRoom init burst ∧ ((exec step init burst).getD init).isrWaiting = false) ↔
      ∀ bs, bs <+: burst → commandsIn bs ≤ receivesIn bs + queueLength := by
  have hrun : exec step init burst = some ((exec step init burst).getD init) := rfl
  exact room_iff_backlog hrun

/-- Fifty commands before the updater is scheduled fill the queue; the next one waits. -/
theorem handler_waits :
    ¬ ∀ es w, exec step init es = some w → AllSteps step FindsRoom init es ∧ w.isrWaiting = false := by
  intro h
  have hrun : (exec step init (List.replicate 51 (.isr byteU))).map State.isrWaiting = some true := by decide
  obtain ⟨w, hw, hwait⟩ := Option.map_eq_some_iff.mp hrun
  rw [(h _ w hw).2] at hwait
  cases hwait

end WindowFilter.Window
