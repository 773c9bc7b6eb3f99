import WindowFilter.Lib.ShiftRegister
import WindowFilter.CInt

/- The drawing loop of `vTaskDisplay`: one pass puts the value received in
   `buffer_onda`, clears the 96x16 display and draws one byte in each column.
   `OSRAMClear` and `OSRAMImageDraw` are the driver's calls on a one by one image;
   `draws` is the history of the latter, newest first.

   * `drawColumns_bytes`: the loop leaves in each column the picture of its cell.
   * `frame_faithful`: after any sequence of passes the display is the picture of
     the last 96 values received. -/
namespace WindowFilter.Pipeline

def DISPLAY_MIN_INPUT : Int := 0
def DISPLAY_MAX_INPUT : Int := 20
def BITMAP_HALF_SIZE : Int := 7

/-- The display's bytes, a column of page 0 above the same column of page 1. -/
structure Oled where
  page0 : Vector UInt8 96
  page1 : Vector UInt8 96
  draws : List (Nat × Nat)
  deriving DecidableEq

def OSRAMClear (o : Oled) : Oled :=
  { o with page0 := Vector.replicate 96 0, page1 := Vector.replicate 96 0 }

/-- `OSRAMImageDraw(pucImage, ulX, ulY, 1, 1)`. Beyond column 95 there is nothing to see. -/
def OSRAMImageDraw (pucImage : List UInt8) (ulX ulY : Nat) (o : Oled) : Oled :=
  let o := { o with draws := (ulX, ulY) :: o.draws }
  if h : ulX < 96 then
    if ulY = 0 then { o with page0 := o.page0.set ulX (pucImage.headD 0) }
    else { o with page1 := o.page1.set ulX (pucImage.headD 0) }
  else o

/-- `bitMapping`, the string without its terminator. -/
def bitMapping (valor : Int) : List UInt8 :=
  match valor with
  | 0 => [0o100]
  | 1 => [0o020]
  | 2 => [0o010]
  | 3 => [0o004]
  | 4 => [0o002]
  | 5 => [0o001]
  | 6 => [0o001]
  | _ => [32]

/-- The body of the normalization loop, for column `i`. -/
def drawColumn (buffer_onda : Vector Int 96) (i : Nat) (hi : i < 96) (o : Oled) : Oled :=
  let input := buffer_onda[i]
  let input := if input < DISPLAY_MIN_INPUT then DISPLAY_MIN_INPUT else input
  let input := if input > DISPLAY_MAX_INPUT then DISPLAY_MAX_INPUT else input
  let total_steps := int32 (2 * BITMAP_HALF_SIZE)
  let mapped_continuous :=
    (int32 (int32 (input - DISPLAY_MIN_INPUT) * total_steps)).tdiv (int32 (DISPLAY_MAX_INPUT - DISPLAY_MIN_INPUT))
  if mapped_continuous < BITMAP_HALF_SIZE then
    OSRAMImageDraw (bitMapping mapped_continuous) i 1 o
  else
    OSRAMImageDraw (bitMapping (int32 (mapped_continuous - BITMAP_HALF_SIZE))) i 0 o

/-- The first `n` iterations of the normalization loop. -/
def drawColumns (buffer_onda : Vector Int 96) : (n : Nat) → n ≤ 96 → Oled → Oled
  | 0, _, o => o
  | n + 1, h, o => drawColumn buffer_onda n h (drawColumns buffer_onda n (Nat.le_of_succ_le h) o)

/-- What one pass of `vTaskDisplay`'s loop reads and writes. -/
structure Screen where
  buffer_onda : Vector Int 96
  oled : Oled
  deriving DecidableEq

/-- The pass for `value_filter`, after its `xQueueReceive`. -/
def drawPass (s : Screen) (value_filter : Int) : Screen :=
  let buffer_onda := ShiftRegister.push s.buffer_onda value_filter
  { buffer_onda, oled := drawColumns buffer_onda 96 (Nat.le_refl 96) (OSRAMClear s.oled) }

/-! ## The picture of a value -/

/-- `v` clamped to the range of the display. -/
def clampInput (v : Int) : Int :=
  if v < DISPLAY_MIN_INPUT then DISPLAY_MIN_INPUT
  else if v > DISPLAY_MAX_INPUT then DISPLAY_MAX_INPUT else v

/-- The height of `v` on the display, from 0 to `2 * BITMAP_HALF_SIZE`. -/
def level (v : Int) : Int :=
  ((clampInput v - DISPLAY_MIN_INPUT) * 2 * BITMAP_HALF_SIZE).tdiv (DISPLAY_MAX_INPUT - DISPLAY_MIN_INPUT)

/-- The bytes of the column that shows `v`, page 0 first. -/
def columnBytes (v : Int) : UInt8 × UInt8 :=
  if level v < BITMAP_HALF_SIZE then (0, (bitMapping (level v)).headD 0)
  else ((bitMapping (level v - BITMAP_HALF_SIZE)).headD 0, 0)

theorem clampInput_eq (v : Int) : clampInput v = max 0 (min v 20) := by
  unfold clampInput DISPLAY_MIN_INPUT DISPLAY_MAX_INPUT
  split_ifs <;> omega

theorem clampInput_bounds (v : Int) : 0 ≤ clampInput v ∧ clampInput v ≤ 20 := by
  rw [clampInput_eq]
  omega

theorem level_eq (v : Int) : level v = clampInput v * 14 / 20 := by
  have hb := clampInput_bounds v
  unfold level DISPLAY_MIN_INPUT DISPLAY_MAX_INPUT BITMAP_HALF_SIZE
  rw [Int.tdiv_eq_ediv_of_nonneg (by omega)]
  omega

theorem level_bounds (v : Int) : 0 ≤ level v ∧ level v ≤ 14 := by
  have hb := clampInput_bounds v
  rw [level_eq]
  omega

/-- The `int` arithmetic of the loop computes the level: nothing overflows. -/
theorem drawColumn_eq (buffer_onda : Vector Int 96) (i : Nat) (hi : i < 96) (o : Oled) :
    drawColumn buffer_onda i hi o =
      if level buffer_onda[i] < BITMAP_HALF_SIZE then OSRAMImageDraw (bitMapping (level buffer_onda[i])) i 1 o
      else OSRAMImageDraw (bitMapping (level buffer_onda[i] - BITMAP_HALF_SIZE)) i 0 o := by
  have hclamp : (if (if buffer_onda[i] < DISPLAY_MIN_INPUT then DISPLAY_MIN_INPUT else buffer_onda[i]) >
      DISPLAY_MAX_INPUT then DISPLAY_MAX_INPUT
      else if buffer_onda[i] < DISPLAY_MIN_INPUT then DISPLAY_MIN_INPUT else buffer_onda[i]) =
      clampInput buffer_onda[i] := by
    unfold clampInput DISPLAY_MIN_INPUT DISPLAY_MAX_INPUT
    split_ifs <;> omega
  have hb := clampInput_bounds buffer_onda[i]
  have hmap : (int32 (int32 (clampInput buffer_onda[i] - DISPLAY_MIN_INPUT) * int32 (2 * BITMAP_HALF_SIZE))).tdiv
      (int32 (DISPLAY_MAX_INPUT - DISPLAY_MIN_INPUT)) = level buffer_onda[i] := by
    unfold level DISPLAY_MIN_INPUT DISPLAY_MAX_INPUT BITMAP_HALF_SIZE
    have hfull : int32 (20 - 0) = 20 - 0 := by decide
    have hsteps : int32 (2 * 7) = 2 * 7 := by decide
    have hinput : int32 (clampInput buffer_onda[i] - 0) = clampInput buffer_onda[i] - 0 :=
      int32_small (by omega) (by omega)
    rw [hfull, hsteps, hinput, int32_small (by omega) (by omega), Int.mul_assoc]
  have hl := level_bounds buffer_onda[i]
  unfold drawColumn
  simp only [hclamp, hmap]
  split
  · rfl
  · next h =>
    rw [int32_small]
    · omega
    · unfold BITMAP_HALF_SIZE
      omega

/-- Drawing column `i` sets its byte on one page and touches nothing else. -/
theorem drawColumn_page0 (buffer_onda : Vector Int 96) (i : Nat) (hi : i < 96) (o : Oled) (j : Nat)
    (hj : j < 96) (hclear : o.page0[i] = 0) :
    (drawColumn buffer_onda i hi o).page0[j] =
      if j = i then (columnBytes buffer_onda[i]).1 else o.page0[j] := by
  rw [drawColumn_eq]
  unfold columnBytes
  by_cases hlow : level buffer_onda[i] < BITMAP_HALF_SIZE
  · simp only [if_pos hlow, OSRAMImageDraw, dif_pos hi]
    by_cases hji : j = i
    · subst hji
      rw [if_pos rfl]
      exact hclear
    · rw [if_neg hji]
      rfl
  · simp only [if_neg hlow, OSRAMImageDraw, dif_pos hi, if_true]
    by_cases hji : j = i
    · subst hji
      rw [if_pos rfl, Vector.getElem_set_self]
    · rw [if_neg hji, Vector.getElem_set_ne _ _ (fun e => hji e.symm)]

theorem drawColumn_page1 (buffer_onda : Vector Int 96) (i : Nat) (hi : i < 96) (o : Oled) (j : Nat)
    (hj : j < 96) (hclear : o.page1[i] = 0) :
    (drawColumn buffer_onda i hi o).page1[j] =
      if j = i then (columnBytes buffer_onda[i]).2 else o.page1[j] := by
  rw [drawColumn_eq]
  unfold columnBytes
  by_cases hlow : level buffer_onda[i] < BITMAP_HALF_SIZE
  · simp only [if_pos hlow, OSRAMImageDraw, dif_pos hi, Nat.one_ne_zero, if_false]
    by_cases hji : j = i
    · subst hji
      rw [if_pos rfl, Vector.getElem_set_self]
    · rw [if_neg hji, Vector.getElem_set_ne _ _ (fun e => hji e.symm)]
  · simp only [if_neg hlow, OSRAMImageDraw, dif_pos hi, if_true]
    by_cases hji : j = i
    · subst hji
      rw [if_pos rfl]
      exact hclear
    · rw [if_neg hji]

theorem drawColumn_draws (buffer_onda : Vector Int 96) (i : Nat) (hi : i < 96) (o : Oled) :
    ∃ y, y < 2 ∧ (drawColumn buffer_onda i hi o).draws = (i, y) :: o.draws := by
  rw [drawColumn_eq]
  split
  · exact ⟨1, by omega, by simp only [OSRAMImageDraw, dif_pos hi]; rfl⟩
  · exact ⟨0, by omega, by simp only [OSRAMImageDraw, dif_pos hi]; rfl⟩

/-- After `n` iterations on a clear display the first `n` columns show their cells,
and the others are still clear. -/
theorem drawColumns_bytes (buffer_onda : Vector Int 96) (n : Nat) (hn : n ≤ 96) (o : Oled)
    (h0 : ∀ j (h : j < 96), o.page0[j] = 0) (h1 : ∀ j (h : j < 96), o.page1[j] = 0) (j : Nat) (hj : j < 96) :
    (drawColumns buffer_onda n hn o).page0[j] = (if j < n then (columnBytes buffer_onda[j]).1 else 0) ∧
    (drawColumns buffer_onda n hn o).page1[j] = (if j < n then (columnBytes buffer_onda[j]).2 else 0) := by
  induction n generalizing j with
  | zero => exact ⟨h0 j hj, h1 j hj⟩
  | succ n ih =>
    have hprev := ih (Nat.le_of_succ_le hn)
    rw [drawColumns, drawColumn_page0 _ _ _ _ j hj (by rw [(hprev n hn).1, if_neg (Nat.lt_irrefl n)]),
      drawColumn_page1 _ _ _ _ j hj (by rw [(hprev n hn).2, if_neg (Nat.lt_irrefl n)])]
    by_cases hjn : j = n
    · subst hjn
      rw [if_pos rfl, if_pos rfl, if_pos (Nat.lt_succ_self j), if_pos (Nat.lt_succ_self j)]
      exact ⟨rfl, rfl⟩
    · have hlt : j < n + 1 ↔ j < n := by omega
      rw [if_neg hjn, if_neg hjn, (hprev j hj).1, (hprev j hj).2]
      simp only [hlt, and_self]

theorem drawColumns_draws (buffer_onda : Vector Int 96) (n : Nat) (hn : n ≤ 96) (o : Oled)
    (h : ∀ xy ∈ o.draws, xy.1 < 96 ∧ xy.2 < 2) :
    ∀ xy ∈ (drawColumns buffer_onda n hn o).draws, xy.1 < 96 ∧ xy.2 < 2 := by
  induction n with
  | zero => exact h
  | succ n ih =>
    obtain ⟨y, hy, hdraws⟩ := drawColumn_draws buffer_onda n hn (drawColumns buffer_onda n (Nat.le_of_succ_le hn) o)
    intro xy hxy
    rw [drawColumns, hdraws] at hxy
    obtain h | h := List.mem_cons.mp hxy
    · subst h
      exact ⟨hn, hy⟩
    · exact ih _ xy h

-- 96 iterations are not to be unfolded: from here on the lemmas above stand for the loop
attribute [irreducible] drawColumns

/-! ## Passes -/

/-- `vTaskDisplay` before its first pass: `buffer_onda` is zero, the display holds anything. -/
def startScreen (page0 page1 : Vector UInt8 96) : Screen :=
  ⟨Vector.replicate 96 0, ⟨page0, page1, []⟩⟩

theorem drawPass_oled (s : Screen) (v : Int) :
    (drawPass s v).oled =
      drawColumns (drawPass s v).buffer_onda 96 (Nat.le_refl 96) (OSRAMClear s.oled) := rfl

theorem drawPass_buffer_onda (s : Screen) (v : Int) :
    (drawPass s v).buffer_onda = ShiftRegister.push s.buffer_onda v := rfl

theorem foldl_buffer_onda (s : Screen) (vs : List Int) :
    (vs.foldl drawPass s).buffer_onda = ShiftRegister.pushAll s.buffer_onda vs := by
  induction vs generalizing s with
  | nil => rfl
  | cons v vs ih => rw [List.foldl_cons, ih, drawPass_buffer_onda, ShiftRegister.pushAll_cons]

theorem foldl_draws (s : Screen) (vs : List Int) (h : ∀ xy ∈ s.oled.draws, xy.1 < 96 ∧ xy.2 < 2) :
    ∀ xy ∈ (vs.foldl drawPass s).oled.draws, xy.1 < 96 ∧ xy.2 < 2 := by
  induction vs generalizing s with
  | nil => exact h
  | cons v vs ih =>
    rw [List.foldl_cons]
    apply ih
    rw [drawPass_oled]
    exact drawColumns_draws _ 96 _ _ h

/-- After a pass every column shows its cell of `buffer_onda`. -/
theorem drawPass_bytes (s : Screen) (v : Int) (j : Nat) (hj : j < 96) :
    (drawPass s v).oled.page0[j] = (columnBytes (drawPass s v).buffer_onda[j]).1 ∧
    (drawPass s v).oled.page1[j] = (columnBytes (drawPass s v).buffer_onda[j]).2 := by
  have h := drawColumns_bytes (drawPass s v).buffer_onda 96 (Nat.le_refl 96) (OSRAMClear s.oled)
    (fun j hj => by simp [OSRAMClear]) (fun j hj => by simp [OSRAMClear]) j hj
  rw [if_pos hj, if_pos hj] at h
  simp only [drawPass_oled]
  exact h

/-- After the passes for `vs` and then `v`, column `i` holds the bytes of the value received
`i` passes before the last, and of 0 where there was none. -/
theorem frame_bytes (page0 page1 : Vector UInt8 96) (vs : List Int) (v : Int) (i : Nat) (hi : i < 96) :
    ((vs ++ [v]).foldl drawPass (startScreen page0 page1)).oled.page0[i] =
      (columnBytes ((vs ++ [v]).reverse.getD i 0)).1 ∧
    ((vs ++ [v]).foldl drawPass (startScreen page0 page1)).oled.page1[i] =
      (columnBytes ((vs ++ [v]).reverse.getD i 0)).2 := by
  have hcell : ((vs ++ [v]).foldl drawPass (startScreen page0 page1)).buffer_onda[i] =
      (vs ++ [v]).reverse.getD i 0 := by
    simp only [foldl_buffer_onda]
    exact ShiftRegister.pushAll_get 0 (vs ++ [v]) i hi
  rw [← hcell]
  rw [List.foldl_append]
  exact drawPass_bytes _ v i hi

/-- **Each frame shows the last 96 values.** After the passes for the values `vs` and
then `v`, whatever was on the display before: column `i` shows the value received `i`
passes before the last, and 0 where there was none. Below the middle that is its byte
of `bitMapping` on page 1 and nothing on page 0, from the middle up the other way
round. Every draw was inside the display. -/
theorem frame_faithful (page0 page1 : Vector UInt8 96) (vs : List Int) (v : Int) :
    (∀ i (hi : i < 96),
      let o := ((vs ++ [v]).foldl drawPass (startScreen page0 page1)).oled
      let m := level ((vs ++ [v]).reverse.getD i 0)
      if m < BITMAP_HALF_SIZE then o.page1[i] = (bitMapping m).headD 0 ∧ o.page0[i] = 0
      else o.page0[i] = (bitMapping (m - BITMAP_HALF_SIZE)).headD 0 ∧ o.page1[i] = 0) ∧
    ∀ xy ∈ ((vs ++ [v]).foldl drawPass (startScreen page0 page1)).oled.draws, xy.1 < 96 ∧ xy.2 < 2 := by
  refine ⟨?_, foldl_draws _ _ (by simp [startScreen])⟩
  intro i hi
  have hbytes := frame_bytes page0 page1 vs v i hi
  unfold columnBytes at hbytes
  by_cases hlow : level ((vs ++ [v]).reverse.getD i 0) < BITMAP_HALF_SIZE
  · rw [if_pos hlow] at hbytes
    dsimp only
    rw [if_pos hlow]
    exact ⟨hbytes.2, hbytes.1⟩
  · rw [if_neg hlow] at hbytes
    dsimp only
    rw [if_neg hlow]
    exact hbytes

-- nor is a whole pass, in the proofs about the tasks
attribute [irreducible] drawPass

end WindowFilter.Pipeline
