import WindowFilter.Kernel.Model

/- The kernel's blocking receive refines the one-step receive of the command path:
   `project` forgets the lists and the lock counts, reads the ring buffer as a FIFO
   and takes everything inside `xQueueReceive` for "about to receive". Each kernel
   step is then at most one step of `Window.step` (`project_step`), so whatever holds
   of every run of the command path holds of the kernel's (`project_exec`). -/
namespace WindowFilter.Kernel
open Steps

/-- Inside `xQueueReceive`, `vTaskUpdateN` is about to receive. -/
def Pc.project : Pc → Window.UpdaterPc
  | .store => .store
  | .print => .print
  | _ => .receive

/-- The command path as its own model sees it. -/
def project (w : State) : Window.State where
  valor_ventana := w.valor_ventana
  xUpdateNQueue := w.xUpdateNQueue.toFifo
  pc := w.pc.project
  N := w.N
  isrWaiting := w.isrWaiting
  handled := w.handled
  uart := w.uart

/-- The step of the command path that a kernel step is, if it is one. -/
def Event.project (w : State) : Event → List Window.Event
  | .isr c => [.isr c]
  | .updater _ =>
    match w.pc with
    | .check => if 0 < w.xUpdateNQueue.uxMessagesWaiting then [.updater .receive] else []
    | .store => [.updater .store]
    | .print => [.updater .print]
    | _ => []
  | _ => []

theorem project_init : project init = Window.init := by
  simp [project, init, Window.init, Pc.project]
  exact Fifo.ext_items rfl

/-- A kernel step that is no step of the command path leaves its state alone. -/
theorem exec_stutter {w w' : State} (h : project w' = project w) :
    exec Window.step (project w) [] = some (project w') := by
  rw [h]
  rfl

theorem project_isr {w w' : State} {c : UInt8} (h : step w (.isr c) = some w') :
    Window.step (project w) (.isr c) = some (project w') := by
  have hrun : (project w).isrWaiting = false := step_some h
  simp only [Window.step, hrun, Bool.false_eq_true, if_false, Option.some.injEq, Window.vUART_ISR_eq]
  obtain ⟨hd, hw'⟩ | ⟨d, hroom, hd, hw'⟩ | ⟨d, hd, hfull, hw'⟩ := step_isr h
  · subst hw'
    rw [hd]
    rfl
  · subst hw'
    have hsend : (project w).xUpdateNQueue.send (int32 (w.valor_ventana + d)) =
        some (w.xUpdateNQueue.prvCopyDataToQueue (int32 (w.valor_ventana + d)) hroom).toFifo :=
      Queue_t.toFifo_send _ _ hroom
    simp only [hd, Window.xQueueSend, Window.sendUART]
    rw [show (project w).valor_ventana = w.valor_ventana from rfl, hsend]
    rfl
  · subst hw'
    have hsend : (project w).xUpdateNQueue.send (int32 (w.valor_ventana + d)) = none :=
      Queue_t.toFifo_send_full _ _ hfull
    simp only [hd, Window.xQueueSend, Window.sendUART]
    rw [show (project w).valor_ventana = w.valor_ventana from rfl, hsend]
    rfl

theorem project_updater {w : State} {expired : Bool} (hrun : w.isrWaiting = false) :
    exec Window.step (project w) ((Event.updater expired).project w) =
      some (project (vTaskUpdateN expired w)) := by
  have hrun' : (project w).isrWaiting = false := hrun
  -- only the receive itself, the store and the print are steps of the command path
  cases hpc : w.pc with
  | check =>
    simp only [Event.project, vTaskUpdateN, hpc, check]
    by_cases hq : 0 < w.xUpdateNQueue.uxMessagesWaiting
    · have hpc' : (project w).pc = .receive := congrArg Pc.project hpc
      have hrecv : (project w).xUpdateNQueue.receive =
          some ((w.xUpdateNQueue.takeFront hq).1, (w.xUpdateNQueue.takeFront hq).2.toFifo) :=
        Queue_t.toFifo_receive _ hq
      simp only [if_pos hq, dif_pos hq, exec, Window.step_updater hrun' hpc', Window.vTaskUpdateN, hpc', hrecv,
        Option.bind_some]
      rfl
    · simp only [if_neg hq, dif_neg hq]
      apply exec_stutter
      split <;> simp [project, Pc.project, hpc]
  | suspend => simp [Event.project, vTaskUpdateN, hpc, project, Pc.project]
  | lock =>
    simp only [Event.project, vTaskUpdateN, hpc]
    apply exec_stutter
    simp only [project, Pc.project, hpc]
    rfl
  | checkTimeOut => cases expired <;> simp [Event.project, vTaskUpdateN, hpc, project, Pc.project]
  | isEmpty =>
    simp only [Event.project, vTaskUpdateN, hpc]
    apply exec_stutter
    split <;> simp [project, Pc.project, hpc]
  | insert =>
    simp only [Event.project, vTaskUpdateN, hpc]
    apply exec_stutter
    simp only [project, Pc.project, hpc]
    rfl
  | delay => simp [Event.project, vTaskUpdateN, hpc, project, Pc.project]
  | unlockTx a =>
    simp only [Event.project, vTaskUpdateN, hpc]
    apply exec_stutter
    simp only [project, Pc.project, hpc]
    rfl
  | unlockRx a =>
    simp only [Event.project, vTaskUpdateN, hpc]
    apply exec_stutter
    simp only [project, Pc.project, hpc]
    rfl
  | resume a => cases a <;> simp [Event.project, vTaskUpdateN, hpc, project, Pc.project]
  | isEmptyTimedOut =>
    simp only [Event.project, vTaskUpdateN, hpc]
    apply exec_stutter
    split <;> simp [project, Pc.project, hpc]
  | store =>
    have hpc' : (project w).pc = .store := congrArg Pc.project hpc
    simp only [Event.project, vTaskUpdateN, hpc, exec, Window.step_updater hrun' hpc', Window.vTaskUpdateN, hpc',
      Option.bind_some]
    rfl
  | print =>
    have hpc' : (project w).pc = .print := congrArg Pc.project hpc
    simp only [Event.project, vTaskUpdateN, hpc, exec, Window.step_updater hrun' hpc', Window.vTaskUpdateN, hpc',
      Option.bind_some]
    rfl

/-- One kernel step is at most one step of the command path. -/
theorem project_step {w w' : State} {e : Event} (h : step w e = some w') :
    exec Window.step (project w) (e.project w) = some (project w') := by
  have hw : ¬ w.isrWaiting = true := Bool.eq_false_iff.mp (step_some h)
  cases e with
  | isr c =>
    simp only [Event.project, exec, project_isr h]
    rfl
  | updater expired =>
    have hrun := step_some h
    simp only [step, if_neg hw] at h
    split at h
    · rw [Option.some.injEq] at h
      subst h
      exact project_updater hrun
    · cases h
  | timeOut =>
    simp only [step, if_neg hw] at h
    split at h
    · rw [Option.some.injEq] at h
      subst h
      rfl
    · cases h
  | suspendOther =>
    simp only [step, if_neg hw] at h
    split at h
    · cases h
    · rw [Option.some.injEq] at h
      subst h
      rfl
  | resumeOther =>
    simp only [step, if_neg hw] at h
    split at h
    · cases h
    · rw [Option.some.injEq] at h
      subst h
      rfl

/-- **The kernel's runs are runs of the command path.** -/
theorem project_exec {es : List Event} {w : State} (h : exec step init es = some w) :
    ∃ fs, exec Window.step Window.init fs = some (project w) := by
  obtain ⟨fs, v, hv, hR⟩ := exec_simulates (R := fun w v => v = project w) (fun w e => e.project w)
    (fun w e w' v hR hstep => ⟨project w', hR ▸ project_step hstep, rfl⟩) h project_init.symm
  exact ⟨fs, hR ▸ hv⟩

end WindowFilter.Kernel
