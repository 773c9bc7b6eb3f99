import WindowFilter.Window.Model
import WindowFilter.Pipeline.Model

/- The whole application: the command path and the pipeline, side by side. They share
   `valor_ventana`, which `vTaskUpdateN` writes and `vTaskReceiverDataSensor` reads.
   While the handler waits for space no task runs, so the pipeline stops with it.

   Seen from the pipeline, the command path only writes `valor_ventana` now and then:
   every run of the application is a run of the open pipeline (`project_exec`). -/
namespace WindowFilter.System
open Steps

structure State where
  window : Window.State
  pipe : Pipeline.State
  deriving DecidableEq

def init : State := ⟨Window.init, Pipeline.init⟩

/-- A step of the command path, or a statement of a task of the pipeline. -/
inductive Event where
  | window (e : Window.Event)
  | task (t : Pipeline.Task)
  deriving DecidableEq, Repr

def step (s : State) : Event → Option State
  | .window e => (Window.step s.window e).map (fun w => { s with window := w })
  | .task t =>
    -- no task runs before the handler has returned
    if s.window.isrWaiting then none
    else (Pipeline.step s.window.valor_ventana s.pipe t).map (fun p => { s with pipe := p })

theorem step_window {s s' : State} {e : Window.Event} (h : step s (.window e) = some s') :
    Window.step s.window e = some s'.window ∧ s'.pipe = s.pipe := by
  simp only [step, Option.map_eq_some_iff] at h
  obtain ⟨w, hw, hs⟩ := h
  subst hs
  exact ⟨hw, rfl⟩

theorem step_task {s s' : State} {t : Pipeline.Task} (h : step s (.task t) = some s') :
    Pipeline.step s.window.valor_ventana s.pipe t = some s'.pipe ∧ s'.window = s.window := by
  simp only [step] at h
  split at h
  · cases h
  · obtain ⟨p, hp, hs⟩ := Option.map_eq_some_iff.mp h
    subst hs
    exact ⟨hp, rfl⟩

/-! ## The application seen from the pipeline -/

def project (s : State) : Pipeline.Open := ⟨s.window.valor_ventana, s.pipe⟩

/-- A step of the command path leaves its `valor_ventana` behind. -/
def Event.project (s : State) : Event → List Pipeline.Event
  | .window e => ((Window.step s.window e).map (fun w => Pipeline.Event.write w.valor_ventana)).toList
  | .task t => [.task t]

theorem project_step {s s' : State} {e : Event} (h : step s e = some s') :
    exec Pipeline.openStep (project s) (e.project s) = some (project s') := by
  cases e with
  | window e =>
    obtain ⟨hw, hp⟩ := step_window h
    simp only [Event.project, hw, Option.map_some, Option.toList_some, exec, Pipeline.openStep,
      Option.bind_some, project, hp]
  | task t =>
    obtain ⟨hp, hw⟩ := step_task h
    simp only [Event.project, exec, Pipeline.openStep, project, hp, hw, Option.map_some, Option.bind_some]

/-- **Every run of the application is a run of the open pipeline.** -/
theorem project_exec {es : List Event} {s : State} (h : exec step init es = some s) :
    ∃ fs, exec Pipeline.openStep Pipeline.openInit fs = some (project s) := by
  obtain ⟨fs, w, hw, hR⟩ := exec_simulates (R := fun s w => w = project s) (fun s e => e.project s)
    (fun s e s' w hR hs => ⟨project s', hR ▸ project_step hs, rfl⟩) h (t := Pipeline.openInit) rfl
  exact ⟨fs, hR ▸ hw⟩

/-- What every step of the command path keeps, every run of the application keeps. -/
theorem window_inv {I : Window.State → Prop} (hstep : ∀ w e w', I w → Window.step w e = some w' → I w')
    {s s' : State} {es : List Event} (h : exec step s es = some s') (h0 : I s.window) : I s'.window := by
  refine exec_inv (I := fun s => I s.window) ?_ h h0
  intro u e u' hu hs
  cases e with
  | window e => exact hstep _ e _ hu (step_window hs).1
  | task t =>
    rw [(step_task hs).2]
    exact hu

end WindowFilter.System
