import WindowFilter.Window.Model
import Mathlib.Data.Nat.Digits.Defs

/- From reset to `main`. The linker script puts the initial values of `.data` in flash,
   right behind `.text`, and its variables in SRAM; between the two stands `ResetISR`, in
   which the loops that copy the one to the other and clear `.bss` are commented out.

   Memory is what a load sees at each address. What the processor itself pushes on
   `pulStack` when it enters a function is below the level of C and left out.

   * `reset`: the memory at reset, for an image and any content of SRAM.
   * `initialised_iff`: when it is the initial state that C promises. -/
namespace WindowFilter.Boot

/-- What each address holds. -/
abbrev Memory := Nat → UInt8

def FLASH_ORIGIN : Nat := 0
def FLASH_LENGTH : Nat := 65536
def SRAM_ORIGIN : Nat := 0x20000000
def SRAM_LENGTH : Nat := 8192

/-! ## The image -/

/-- What the linker lays out: the bytes of `.text` and of `.data`, the gap that aligns
`.bss`, and the size of `.bss`. -/
structure Image where
  text : List UInt8
  data : List UInt8
  gap : Nat
  bss : Nat
  flash_fits : text.length + data.length ≤ FLASH_LENGTH
  sram_fits : data.length + gap + bss ≤ SRAM_LENGTH

/-! The symbols of the linker script. -/

def Image._etext (im : Image) : Nat := FLASH_ORIGIN + im.text.length
def Image._data (_ : Image) : Nat := SRAM_ORIGIN
def Image._edata (im : Image) : Nat := im._data + im.data.length
def Image._bss (im : Image) : Nat := im._edata + im.gap
def Image._ebss (im : Image) : Nat := im._bss + im.bss

/-- The memory at reset: the loader has put `.text`, and `.data` behind it, in flash; SRAM
holds anything. -/
def reset (im : Image) (sram : Nat → UInt8) : Memory := fun a =>
  if FLASH_ORIGIN ≤ a ∧ a < FLASH_ORIGIN + FLASH_LENGTH then (im.text ++ im.data).getD (a - FLASH_ORIGIN) 0xFF
  else if SRAM_ORIGIN ≤ a ∧ a < SRAM_ORIGIN + SRAM_LENGTH then sram (a - SRAM_ORIGIN)
  else 0

/-- The memory in which `ResetISR` calls `main`: the two loops before it are commented out,
so the call is its first statement. -/
def ResetISR (mem : Memory) : Memory := mem

/-- The initial state of C: every byte of `.data` is the one of the load image behind
`.text`, and every byte of `.bss` is zero. -/
structure Initialised (im : Image) (mem : Memory) : Prop where
  data : ∀ a, im._data ≤ a → a < im._edata → mem a = mem (im._etext + (a - im._data))
  bss : ∀ a, im._bss ≤ a → a < im._ebss → mem a = 0

/-! ## What is where at reset -/

/-- `.bss` as offsets in SRAM. -/
theorem mem_bss {im : Image} {i : Nat} :
    im._bss ≤ SRAM_ORIGIN + i ∧ SRAM_ORIGIN + i < im._ebss ↔
      im.data.length + im.gap ≤ i ∧ i < im.data.length + im.gap + im.bss := by
  unfold Image._ebss Image._bss Image._edata Image._data
  omega

/-- The initial state of C, by offsets in SRAM. -/
theorem initialised_offsets {im : Image} {mem : Memory} :
    Initialised im mem ↔
      (∀ i, i < im.data.length → mem (SRAM_ORIGIN + i) = mem (im._etext + i)) ∧
      ∀ i, im.data.length + im.gap ≤ i → i < im.data.length + im.gap + im.bss → mem (SRAM_ORIGIN + i) = 0 := by
  refine ⟨fun h => ⟨?_, ?_⟩, fun h => ⟨?_, ?_⟩⟩
  · intro i hi
    have hbyte := h.data (SRAM_ORIGIN + i) (Nat.le_add_right _ _) (Nat.add_lt_add_left hi SRAM_ORIGIN)
    rw [Image._data, Nat.add_sub_cancel_left] at hbyte
    exact hbyte
  · intro i hlo hhi
    have hin := mem_bss.mpr ⟨hlo, hhi⟩
    exact h.bss _ hin.1 hin.2
  · intro a hlo hhi
    obtain ⟨i, rfl⟩ := Nat.exists_eq_add_of_le hlo
    rw [Nat.add_sub_cancel_left]
    exact h.1 i (Nat.lt_of_add_lt_add_left hhi)
  · intro a hlo hhi
    obtain ⟨i, rfl⟩ : ∃ i, a = SRAM_ORIGIN + i := by
      apply Nat.exists_eq_add_of_le
      unfold Image._bss Image._edata Image._data at hlo
      omega
    have hin := mem_bss.mp ⟨hlo, hhi⟩
    exact h.2 i hin.1 hin.2

section
variable {im : Image} {sram : Nat → UInt8}

/-- The load image of `.data` is in flash. -/
theorem reset_image {i : Nat} (hi : i < im.data.length) : reset im sram (im._etext + i) = im.data[i] := by
  have hfits := im.flash_fits
  have hin : FLASH_ORIGIN ≤ im._etext + i ∧ im._etext + i < FLASH_ORIGIN + FLASH_LENGTH := by
    rw [Image._etext]
    omega
  have hoff : im._etext + i - FLASH_ORIGIN = im.text.length + i := by
    rw [Image._etext]
    omega
  rw [reset, if_pos hin, hoff, List.getD_eq_getElem?_getD, List.getElem?_append_right (by omega),
    Nat.add_sub_cancel_left, List.getElem?_eq_getElem hi, Option.getD_some]

/-- What is in SRAM is what was there. -/
theorem reset_sram {i : Nat} (hi : i < SRAM_LENGTH) : reset im sram (SRAM_ORIGIN + i) = sram i := by
  rw [SRAM_LENGTH] at hi
  rw [reset, if_neg (by unfold FLASH_ORIGIN FLASH_LENGTH SRAM_ORIGIN; omega),
    if_pos (by unfold SRAM_ORIGIN SRAM_LENGTH; omega), Nat.add_sub_cancel_left]

/-- **Start-up establishes nothing.** `main` is called in the initial state of C if and only
if SRAM already held it at reset: the initial values of `.data`, and zeros in `.bss`. -/
theorem initialised_iff (im : Image) (sram : Nat → UInt8) :
    Initialised im (ResetISR (reset im sram)) ↔
      (∀ i (h : i < im.data.length), sram i = im.data[i]) ∧
      ∀ i, im.data.length + im.gap ≤ i → i < im.data.length + im.gap + im.bss → sram i = 0 := by
  have hfits := im.sram_fits
  rw [ResetISR, initialised_offsets]
  refine ⟨fun h => ⟨?_, ?_⟩, fun h => ⟨?_, ?_⟩⟩
  · intro i hi
    calc sram i = reset im sram (SRAM_ORIGIN + i) := (reset_sram (by omega)).symm
      _ = reset im sram (im._etext + i) := h.1 i hi
      _ = im.data[i] := reset_image hi
  · intro i hlo hhi
    calc sram i = reset im sram (SRAM_ORIGIN + i) := (reset_sram (by omega)).symm
      _ = 0 := h.2 i hlo hhi
  · intro i hi
    calc reset im sram (SRAM_ORIGIN + i) = sram i := reset_sram (by omega)
      _ = im.data[i] := h.1 i hi
      _ = reset im sram (im._etext + i) := (reset_image hi).symm
  · intro i hlo hhi
    calc reset im sram (SRAM_ORIGIN + i) = sram i := reset_sram (by omega)
      _ = 0 := h.2 i hlo hhi

/-! ## A variable -/

/-- The `int` at an address, its lowest byte first. -/
def readInt (mem : Memory) (a : Nat) : Int :=
  int32 (Nat.ofDigits 256 [(mem a).toNat, (mem (a + 1)).toNat, (mem (a + 2)).toNat, (mem (a + 3)).toNat] : Nat)

theorem readInt_congr {mem mem' : Memory} {a b : Nat} (h : ∀ j, j < 4 → mem (a + j) = mem' (b + j)) :
    readInt mem a = readInt mem' b := by
  have h0 : mem a = mem' b := h 0 (by omega)
  have h1 := h 1 (by omega)
  have h2 := h 2 (by omega)
  have h3 := h 3 (by omega)
  simp only [readInt, h0, h1, h2, h3]

/-- What `main` finds in a variable at offset `k` of SRAM is what was there at reset. -/
theorem readInt_main {k : Nat} (hk : k + 4 ≤ SRAM_LENGTH) :
    readInt (ResetISR (reset im sram)) (SRAM_ORIGIN + k) = readInt sram k := by
  apply readInt_congr
  intro j hj
  rw [ResetISR, Nat.add_assoc]
  exact reset_sram (by omega)

/-- In the initial state of C, a variable of `.data` has its initial value. -/
theorem Initialised.readInt_data {mem : Memory} (h : Initialised im mem) {k : Nat} (hk : k + 4 ≤ im.data.length) :
    readInt mem (im._data + k) = readInt mem (im._etext + k) := by
  apply readInt_congr
  intro j hj
  have hbyte := h.data (im._data + k + j) (by omega) (by unfold Image._edata; omega)
  have hoff : im._data + k + j - im._data = k + j := by omega
  rw [hbyte, hoff, Nat.add_assoc]

/-- So the first `get_N_value` would return what the window starts from, if the image has 1
for it. -/
theorem Initialised.first_N {mem : Memory} (h : Initialised im mem) {k : Nat} (hk : k + 4 ≤ im.data.length)
    (hone : readInt mem (im._etext + k) = 1) : readInt mem (im._data + k) = Window.init.valor_ventana := by
  rw [h.readInt_data hk, hone]
  rfl

end

/-- An image with two instructions in `.text`, `nop` and `bx lr`, and one variable in `.data`,
`valor_ventana`, initially 1. -/
def oneVariable : Image := ⟨[0x00, 0xBF, 0x70, 0x47], [1, 0, 0, 0], 0, 4, by decide, by decide⟩

/-- After power-up with zeros in SRAM the first `get_N_value` returns 0. -/
theorem start_up_lost :
    ¬ Initialised oneVariable (ResetISR (reset oneVariable (fun _ => 0))) ∧
      readInt (ResetISR (reset oneVariable (fun _ => 0))) oneVariable._data = 0 := by
  refine ⟨?_, ?_⟩
  · intro h
    have hbyte := h.data oneVariable._data (by decide) (by decide)
    exact absurd hbyte (by decide)
  · calc readInt (ResetISR (reset oneVariable (fun _ => 0))) oneVariable._data
        = readInt (fun _ => 0) 0 := @readInt_main oneVariable (fun _ => 0) 0 (by decide)
      _ = 0 := by decide

end WindowFilter.Boot
