import WindowFilter.Pipeline.Refinement

/- What the user sees. The passes of the display are folded over the values received
   (`drawn_exec`), and these are the averages of the specification: at any moment the
   display is the picture of the first averages, as many as have been drawn
   (`screen_averages`). -/
namespace WindowFilter.Pipeline
open Steps

/-- The value received and not yet drawn. -/
def inHand (p : State) : List Int :=
  match p.display.pc with
  | .draw => [p.display.value_filter]
  | _ => []

/-- The display before the first pass. -/
def blankScreen : Screen := startScreen (Vector.replicate 96 0) (Vector.replicate 96 0)

/-- One pass for every value received, up to the one in hand. -/
def Drawn (p : State) : Prop :=
  ∃ vs, p.display.screen = vs.foldl drawPass blankScreen ∧ vs.length = p.drawn ∧ p.shown = vs ++ inHand p

theorem drawn_init : Drawn init := ⟨[], rfl, rfl, rfl⟩

/-- A step of another task leaves the display alone. -/
theorem drawn_of_same {p p' : State} (hd : Drawn p) (hdisplay : p'.display = p.display)
    (hshown : p'.shown = p.shown) (hdrawn : p'.drawn = p.drawn) : Drawn p' := by
  unfold Drawn inHand at *
  rw [hdisplay, hshown, hdrawn]
  exact hd

theorem drawn_display {p p' : State} (hd : Drawn p) (h : DisplayStep p p') : Drawn p' := by
  obtain ⟨vs, hscreen, hlen, hshown⟩ := hd
  cases h with
  | splash n pc hpc hpc' =>
    have hnone : inHand p = [] := by simp only [inHand, hpc]
    rw [hnone] at hshown
    refine ⟨vs, hscreen, hlen, ?_⟩
    obtain hreceive | ⟨m, hsplash⟩ := hpc'
    · simp only [inHand, hreceive]
      exact hshown
    · simp only [inHand, hsplash]
      exact hshown
  | receive v q hpc hq =>
    have hnone : inHand p = [] := by simp only [inHand, hpc]
    rw [hnone, List.append_nil] at hshown
    refine ⟨vs, hscreen, hlen, ?_⟩
    show p.shown ++ [v] = vs ++ [v]
    rw [hshown]
  | draw hpc =>
    -- the value in hand is the last one drawn
    have hone : inHand p = [p.display.value_filter] := by simp only [inHand, hpc]
    refine ⟨vs ++ [p.display.value_filter], ?_, ?_, ?_⟩
    · show drawPass p.display.screen p.display.value_filter = _
      rw [List.foldl_append, ← hscreen]
      rfl
    · show (vs ++ [p.display.value_filter]).length = p.drawn + 1
      rw [List.length_append, List.length_singleton, hlen]
    · show p.shown = vs ++ [p.display.value_filter] ++ []
      rw [hshown, hone, List.append_nil]

theorem drawn_step {v : Int} {t : Task} {p p' : State} (hd : Drawn p) (h : step v p t = some p') : Drawn p' := by
  cases t with
  | sensor => cases sensor_step h <;> exact drawn_of_same hd rfl rfl rfl
  | receiver => cases receiver_step h <;> exact drawn_of_same hd rfl rfl rfl
  | display => exact drawn_display hd (display_step h)

theorem drawn_exec {es : List Event} {w : Open} (h : exec openStep openInit es = some w) : Drawn w.pipe :=
  open_inv (fun _ _ _ _ hd hs => drawn_step hd hs) h drawn_init

/-- **The display is the picture of the averages.** In every state of every interleaving
of the three tasks with writes to `valor_ventana`, as long as `get_N_value` has not
returned 0 to the receiver's loop: the passes so far have drawn the first averages for
the windows read, in order. -/
theorem screen_averages {es : List Event} {w : Open} (h : exec openStep openInit es = some w)
    (hreads : 0 ∉ w.pipe.reads) :
    w.pipe.display.screen = ((averages w.pipe.reads).take w.pipe.drawn).foldl drawPass blankScreen := by
  obtain ⟨vs, hscreen, hlen, hshown⟩ := drawn_exec h
  have hprefix : vs <+: averages w.pipe.reads := by
    calc vs <+: w.pipe.shown := ⟨inHand w.pipe, hshown.symm⟩
      _ <+: emitted w.pipe := List.prefix_append _ _
      _ <+: averages w.pipe.reads := (follows_exec h hreads).receives.emits_in_order
  rw [hscreen, ← hlen, ← List.prefix_iff_eq_take.mp hprefix]

end WindowFilter.Pipeline
