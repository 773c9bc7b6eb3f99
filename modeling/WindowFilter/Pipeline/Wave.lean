import WindowFilter.Pipeline.Display

/- Is the wave on the display in order? The pixel of a value climbs with the value, a
   half of the table for each page, until the top: 20 maps to the step 14, one past the
   table's end, and its default entry lights a pixel in the middle of the upper page.

   * `lit_iff`: one pixel to a column, in the row of its value.
   * `row_le_iff`: when a greater value is at least as high.
   * `wave_ordered_iff`: so a frame is in order unless it shows the top value together
     with one that should be below it. -/
namespace WindowFilter.Pipeline

/-- The pixel in row `r` of a column, from the top: page 0 above page 1, the least
significant bit of a byte on top. -/
def Lit (column : UInt8 × UInt8) (r : Nat) : Prop :=
  r < 16 ∧ (if r < 8 then column.1.toNat.testBit r else column.2.toNat.testBit (r - 8)) = true

instance (column : UInt8 × UInt8) (r : Nat) : Decidable (Lit column r) := by
  unfold Lit; infer_instance

def column (o : Oled) (i : Nat) (hi : i < 96) : UInt8 × UInt8 := (o.page0[i], o.page1[i])

/-- The value column `i` holds once `vs` have been received. -/
def held (vs : List Int) (i : Nat) : Int := vs.reverse.getD i 0

/-- The picture of the values `vs` is a wave: a pixel in each column, and none lower
than that of a smaller value. -/
structure Ordered (vs : List Int) (o : Oled) : Prop where
  one : ∀ i (hi : i < 96), ∃ r, Lit (column o i hi) r ∧ ∀ r', Lit (column o i hi) r' → r' = r
  higher : ∀ i j (hi : i < 96) (hj : j < 96), held vs i ≤ held vs j →
    ∀ r r', Lit (column o i hi) r → Lit (column o j hj) r' → r' ≤ r

/-! ## One column -/

def stepBytes (m : Int) : UInt8 × UInt8 :=
  if m < BITMAP_HALF_SIZE then (0, (bitMapping m).headD 0) else ((bitMapping (m - BITMAP_HALF_SIZE)).headD 0, 0)

/-- The row of the pixel at a step of the scale. -/
def stepRow (m : Int) : Nat := (List.range 16).find? (fun r => decide (Lit (stepBytes m) r)) |>.getD 16

def row (v : Int) : Nat := stepRow (level v)

theorem columnBytes_eq (v : Int) : columnBytes v = stepBytes (level v) := rfl

/-- The steps of the scale are few enough to look at each. -/
theorem of_steps {P : Int → Prop} (h : ∀ m : Fin 15, P m.val) {m : Int} (h0 : 0 ≤ m) (h14 : m ≤ 14) : P m := by
  obtain ⟨n, hn⟩ := Int.eq_ofNat_of_zero_le h0
  subst hn
  exact h ⟨n, by omega⟩

theorem lit_iff (v : Int) (r : Nat) : Lit (columnBytes v) r ↔ r = row v := by
  have hb := level_bounds v
  rw [columnBytes_eq, row]
  by_cases hr : r < 16
  · have hall := of_steps (P := fun m => ∀ r : Fin 16, Lit (stepBytes m) r.val ↔ r.val = stepRow m) (by decide)
      hb.1 hb.2
    exact hall ⟨r, hr⟩
  · have hrow := of_steps (P := fun m => stepRow m < 16) (by decide) hb.1 hb.2
    refine ⟨?_, ?_⟩
    · intro h
      exact absurd h.1 hr
    · intro h
      omega

/-! ## Two columns -/

theorem level_mono {a b : Int} (h : a ≤ b) : level a ≤ level b := by
  rw [level_eq, level_eq, clampInput_eq, clampInput_eq]
  omega

/-- The top value is drawn at the last step, past the end of the table. -/
theorem level_top (v : Int) : level v = 14 ↔ DISPLAY_MAX_INPUT ≤ v := by
  rw [level_eq, clampInput_eq, DISPLAY_MAX_INPUT]
  omega

/-- From 12 on a value is drawn above the row that the default entry lights. -/
theorem level_high (v : Int) : 8 ≤ level v ↔ 12 ≤ v := by
  rw [level_eq, clampInput_eq]
  omega

/-- The rows climb with the steps, but for the last step and those right below it. -/
theorem stepRow_le_iff {m n : Int} (hm0 : 0 ≤ m) (hmn : m ≤ n) (hn14 : n ≤ 14) :
    stepRow n ≤ stepRow m ↔ ¬ (n = 14 ∧ 8 ≤ m ∧ m < 14) := by
  have hall := of_steps
    (P := fun m => ∀ n : Fin 15, m ≤ (n.val : Int) →
      (stepRow n.val ≤ stepRow m ↔ ¬ ((n.val : Int) = 14 ∧ 8 ≤ m ∧ m < 14)))
    (by decide) hm0 (by omega)
  exact of_steps (P := fun n => m ≤ n → (stepRow n ≤ stepRow m ↔ ¬ (n = 14 ∧ 8 ≤ m ∧ m < 14))) hall
    (by omega) hn14 hmn

/-- A greater value is at least as high, unless it is the top value and the other one is
between 12 and 19. -/
theorem row_le_iff {a b : Int} (h : a ≤ b) :
    row b ≤ row a ↔ ¬ (DISPLAY_MAX_INPUT ≤ b ∧ 12 ≤ a ∧ a < DISPLAY_MAX_INPUT) := by
  have hbelow : level a < 14 ↔ a < DISPLAY_MAX_INPUT := by
    have htop := level_top a
    have hb := level_bounds a
    omega
  rw [row, row, stepRow_le_iff (level_bounds a).1 (level_mono h) (level_bounds b).2, level_top, level_high, hbelow]

/-! ## A frame -/

theorem column_frame (page0 page1 : Vector UInt8 96) (vs : List Int) (v : Int) (i : Nat) (hi : i < 96) :
    column ((vs ++ [v]).foldl drawPass (startScreen page0 page1)).oled i hi = columnBytes (held (vs ++ [v]) i) := by
  obtain ⟨h0, h1⟩ := frame_bytes page0 page1 vs v i hi
  exact Prod.ext h0 h1

/-- **A frame is in order unless it shows the top value together with one from 12 to 19.** After
any values `vs` and then `v`: every column has one pixel and greater values are at least
as high, if and only if no column holds a value of at least `DISPLAY_MAX_INPUT` while
another holds one from 12 up to below it. -/
theorem wave_ordered_iff (page0 page1 : Vector UInt8 96) (vs : List Int) (v : Int) :
    Ordered (vs ++ [v]) ((vs ++ [v]).foldl drawPass (startScreen page0 page1)).oled ↔
      ¬ ∃ i j, i < 96 ∧ j < 96 ∧ DISPLAY_MAX_INPUT ≤ held (vs ++ [v]) i ∧
        12 ≤ held (vs ++ [v]) j ∧ held (vs ++ [v]) j < DISPLAY_MAX_INPUT := by
  refine ⟨?_, ?_⟩
  · intro ho hboth
    obtain ⟨i, j, hi, hj, htop, hlo, hhi⟩ := hboth
    have hle : held (vs ++ [v]) j ≤ held (vs ++ [v]) i := by omega
    have hrow : row (held (vs ++ [v]) i) ≤ row (held (vs ++ [v]) j) := by
      apply ho.higher j i hj hi hle
      · rw [column_frame, lit_iff]
      · rw [column_frame, lit_iff]
    exact (row_le_iff hle).mp hrow ⟨htop, hlo, hhi⟩
  · intro hnot
    refine ⟨?_, ?_⟩
    · intro i hi
      refine ⟨row (held (vs ++ [v]) i), ?_, ?_⟩
      · rw [column_frame, lit_iff]
      · intro r' hr'
        rw [column_frame, lit_iff] at hr'
        exact hr'
    · intro i j hi hj hle r r' hr hr'
      rw [column_frame, lit_iff] at hr hr'
      rw [hr, hr', row_le_iff hle]
      intro hbad
      exact hnot ⟨j, i, hj, hi, hbad⟩

/-- The pixel of 20 is below that of 19. -/
theorem wave_breaks :
    ¬ Ordered [19, 20]
      (([19, 20] : List Int).foldl drawPass (startScreen (Vector.replicate 96 0) (Vector.replicate 96 0))).oled := by
  intro h
  have h : Ordered ([19] ++ [20]) (([19] ++ [20] : List Int).foldl drawPass
    (startScreen (Vector.replicate 96 0) (Vector.replicate 96 0))).oled := h
  have hrow : row 20 ≤ row 19 := by
    apply h.higher 1 0 (by decide) (by decide) (by decide)
    · rw [column_frame, lit_iff]
      rfl
    · rw [column_frame, lit_iff]
      rfl
  exact absurd hrow (by decide)

end WindowFilter.Pipeline
