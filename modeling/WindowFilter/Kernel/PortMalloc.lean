import Mathlib
import WindowFilter.Lib.Steps

/- The kernel's allocator (`Source/portable/MemMang/heap_1.c`): blocks are cut off one
   after the other from `ucHeap` and never given back. Sizes and addresses are 32 bits.

   Whatever sizes are asked for, in whatever order, the blocks that have been handed out
   start on 8-byte boundaries, lie in `ucHeap` and do not overlap, and a call fails exactly
   when what is asked for, rounded up, does not fit into what is left (`blocks_apart`).

   `blocks` is a history: the blocks handed out, the last one first. -/
namespace WindowFilter.PortMalloc
open Steps

def configTOTAL_HEAP_SIZE : UInt32 := 5000
def portBYTE_ALIGNMENT : UInt32 := 8
def portBYTE_ALIGNMENT_MASK : UInt32 := 7
def configADJUSTED_HEAP_SIZE : UInt32 := configTOTAL_HEAP_SIZE - portBYTE_ALIGNMENT
def heapSIZE_MAX : UInt32 := ~~~0

def heapADD_WILL_OVERFLOW (a b : UInt32) : Bool := a > heapSIZE_MAX - b

/-- A block, and the size it was asked for with. -/
structure Block where
  pv : UInt32
  xWantedSize : UInt32
  deriving DecidableEq, Repr

structure State where
  xNextFreeByte : UInt32
  pucAlignedHeap : UInt32
  blocks : List Block
  deriving DecidableEq, Repr

def init : State := ⟨0, 0, []⟩

/-- The size with the bytes that align the next block, or 0 where that overflows. -/
def alignedSize (xWantedSize : UInt32) : UInt32 :=
  if xWantedSize &&& portBYTE_ALIGNMENT_MASK ≠ 0 then
    let xAdditionalRequiredSize := portBYTE_ALIGNMENT - (xWantedSize &&& portBYTE_ALIGNMENT_MASK)
    if heapADD_WILL_OVERFLOW xWantedSize xAdditionalRequiredSize then 0 else xWantedSize + xAdditionalRequiredSize
  else xWantedSize

/-- `pvPortMalloc`, with the address of `ucHeap`, and the pointer it returns. -/
def pvPortMalloc (ucHeap xWantedSize : UInt32) (s : State) : UInt32 × State :=
  let wanted := xWantedSize
  let xWantedSize := alignedSize xWantedSize
  let s := if s.pucAlignedHeap = 0 then
      { s with pucAlignedHeap := (ucHeap + (portBYTE_ALIGNMENT - 1)) &&& ~~~portBYTE_ALIGNMENT_MASK }
    else s
  if xWantedSize > 0 ∧ heapADD_WILL_OVERFLOW s.xNextFreeByte xWantedSize = false ∧
      s.xNextFreeByte + xWantedSize < configADJUSTED_HEAP_SIZE then
    let pvReturn := s.pucAlignedHeap + s.xNextFreeByte
    (pvReturn, { s with xNextFreeByte := s.xNextFreeByte + xWantedSize, blocks := ⟨pvReturn, wanted⟩ :: s.blocks })
  else (0, s)

def xPortGetFreeHeapSize (s : State) : UInt32 := configADJUSTED_HEAP_SIZE - s.xNextFreeByte

/-- A call: the size it asks for. -/
def step (ucHeap : UInt32) (s : State) (xWantedSize : UInt32) : Option State := some (pvPortMalloc ucHeap xWantedSize s).2

/-! ## Rounding -/

/-- `n` rounded up to a multiple of 8. -/
def roundUp (n : Nat) : Nat := (n + 7) / 8 * 8

theorem toNat_and_mask (x : UInt32) : (x &&& portBYTE_ALIGNMENT_MASK).toNat = x.toNat % 8 := by
  rw [UInt32.toNat_and]
  exact Nat.and_two_pow_sub_one_eq_mod x.toNat 3

theorem toNat_and_not_mask (x : UInt32) : (x &&& ~~~portBYTE_ALIGNMENT_MASK).toNat = x.toNat / 8 * 8 := by
  have hmask : (~~~portBYTE_ALIGNMENT_MASK).toNat = (2 ^ 29 - 1) * 2 ^ 3 := by decide
  have hquot : x.toNat / 8 * 8 = x.toNat / 2 ^ 3 * 2 ^ 3 := rfl
  rw [UInt32.toNat_and, hmask, hquot]
  apply Nat.eq_of_testBit_eq
  intro i
  rw [Nat.testBit_and, Nat.testBit_mul_two_pow, Nat.testBit_two_pow_sub_one, Nat.testBit_mul_two_pow,
    Nat.testBit_div_two_pow]
  by_cases hi : 3 ≤ i
  · rw [Nat.sub_add_cancel hi]
    by_cases hhigh : i < 32
    · simp [hi, show i - 3 < 29 by omega]
    · have hbit : x.toNat.testBit i = false :=
        Nat.testBit_lt_two_pow (x.toNat_lt.trans_le (Nat.pow_le_pow_right (by decide) (not_lt.mp hhigh)))
      simp [hbit]
  · simp [hi]

theorem overflow_iff (a b : UInt32) : heapADD_WILL_OVERFLOW a b = true ↔ 2 ^ 32 ≤ a.toNat + b.toNat := by
  have hmax : (heapSIZE_MAX - b).toNat = 2 ^ 32 - 1 - b.toNat := by
    rw [UInt32.toNat_sub_of_le]
    · rfl
    · exact UInt32.le_iff_toNat_le.mpr (Nat.le_of_lt_succ b.toNat_lt)
  rw [heapADD_WILL_OVERFLOW, decide_eq_true_iff, gt_iff_lt, UInt32.lt_iff_toNat_lt, hmax]
  have := b.toNat_lt
  omega

/-- A size that does not overflow is rounded up, and one that does becomes 0. -/
theorem toNat_alignedSize (x : UInt32) :
    (alignedSize x).toNat = if roundUp x.toNat < 2 ^ 32 then roundUp x.toNat else 0 := by
  have hlt := x.toNat_lt
  have hrem := toNat_and_mask x
  rw [alignedSize, roundUp]
  by_cases haligned : x &&& portBYTE_ALIGNMENT_MASK = 0
  · have hzero : x.toNat % 8 = 0 := by rw [← hrem, haligned]; rfl
    rw [if_neg (not_not.mpr haligned), if_pos (by omega)]
    omega
  · have hpos : x.toNat % 8 ≠ 0 := by
      rw [← hrem]
      exact fun h => haligned (UInt32.toNat_inj.mp h)
    have hextra : (portBYTE_ALIGNMENT - (x &&& portBYTE_ALIGNMENT_MASK)).toNat = 8 - x.toNat % 8 := by
      rw [UInt32.toNat_sub_of_le, hrem]
      · rfl
      · rw [UInt32.le_iff_toNat_le, hrem]
        exact Nat.le_of_lt (Nat.mod_lt _ (by decide))
    rw [if_pos haligned]
    by_cases hover : heapADD_WILL_OVERFLOW x (portBYTE_ALIGNMENT - (x &&& portBYTE_ALIGNMENT_MASK)) = true
    · have hbig := (overflow_iff _ _).mp hover
      rw [hextra] at hbig
      rw [if_pos hover, if_neg (by omega)]
      rfl
    · have hsmall := (overflow_iff _ _).not.mp hover
      rw [hextra] at hsmall
      rw [if_neg hover, if_pos (by omega), UInt32.toNat_add, hextra, Nat.mod_eq_of_lt (by omega)]
      omega

/-! ## The blocks -/

/-- The bytes taken off the heap for the blocks. -/
def used (bs : List Block) : Nat := (bs.map (fun b => roundUp b.xWantedSize.toNat)).sum

/-- The blocks lie one behind the other from `base` on. -/
def Laid (base : Nat) : List Block → Prop
  | [] => True
  | b :: bs => b.pv.toNat = base + used bs ∧ 0 < b.xWantedSize ∧ Laid base bs

/-- The first 8-byte boundary in `ucHeap`. -/
def alignedHeap (ucHeap : UInt32) : UInt32 := (ucHeap + (portBYTE_ALIGNMENT - 1)) &&& ~~~portBYTE_ALIGNMENT_MASK

structure Inv (ucHeap : UInt32) (s : State) : Prop where
  base : s.pucAlignedHeap = 0 ∨ s.pucAlignedHeap = alignedHeap ucHeap
  next : s.xNextFreeByte.toNat = used s.blocks
  room : used s.blocks < 4992
  laid : Laid (alignedHeap ucHeap).toNat s.blocks

theorem toNat_alignedHeap {ucHeap : UInt32} (hfits : ucHeap.toNat + 5000 ≤ 2 ^ 32) :
    (alignedHeap ucHeap).toNat = roundUp ucHeap.toNat := by
  have hsum : (ucHeap + (portBYTE_ALIGNMENT - 1)).toNat = ucHeap.toNat + 7 := by
    rw [UInt32.toNat_add]
    exact Nat.mod_eq_of_lt (by have : (portBYTE_ALIGNMENT - 1).toNat = 7 := rfl; omega)
  rw [alignedHeap, toNat_and_not_mask, hsum, roundUp]

/-- Whether there is room. -/
theorem room_iff {ucHeap : UInt32} {s : State} (h : Inv ucHeap s) (n : UInt32) :
    (alignedSize n > 0 ∧ heapADD_WILL_OVERFLOW s.xNextFreeByte (alignedSize n) = false ∧
      s.xNextFreeByte + alignedSize n < configADJUSTED_HEAP_SIZE) ↔
    0 < n ∧ used s.blocks + roundUp n.toNat < 4992 := by
  have hsize := toNat_alignedSize n
  have hover := overflow_iff s.xNextFreeByte (alignedSize n)
  have hroom := h.room
  have hadjusted : configADJUSTED_HEAP_SIZE.toNat = 4992 := rfl
  rw [h.next] at hover
  rw [gt_iff_lt, UInt32.lt_iff_toNat_lt, UInt32.lt_iff_toNat_lt, UInt32.lt_iff_toNat_lt, UInt32.toNat_add, h.next,
    hadjusted, ← Bool.not_eq_true, hover]
  by_cases hbig : roundUp n.toNat < 2 ^ 32
  · rw [if_pos hbig] at hsize
    have hzero : 0 < roundUp n.toNat ↔ 0 < n.toNat := by rw [roundUp]; omega
    rw [hsize]
    refine ⟨?_, ?_⟩
    · rintro ⟨hn, hfit, hlt⟩
      rw [Nat.mod_eq_of_lt (by omega)] at hlt
      exact ⟨hzero.mp hn, hlt⟩
    · rintro ⟨hn, hlt⟩
      rw [Nat.mod_eq_of_lt (by omega)]
      exact ⟨hzero.mpr hn, by omega, hlt⟩
  · rw [if_neg hbig] at hsize
    refine ⟨?_, ?_⟩
    · rintro ⟨hn, -, -⟩
      rw [hsize] at hn
      exact absurd hn (lt_irrefl _)
    · rintro ⟨-, hlt⟩
      omega

theorem pvPortMalloc_eq {ucHeap : UInt32} {s : State} (h : Inv ucHeap s) (n : UInt32) :
    pvPortMalloc ucHeap n s =
      if 0 < n ∧ used s.blocks + roundUp n.toNat < 4992 then
        (alignedHeap ucHeap + s.xNextFreeByte,
          ⟨s.xNextFreeByte + alignedSize n, alignedHeap ucHeap, ⟨alignedHeap ucHeap + s.xNextFreeByte, n⟩ :: s.blocks⟩)
      else (0, { s with pucAlignedHeap := alignedHeap ucHeap }) := by
  have hbase : (if s.pucAlignedHeap = 0 then { s with pucAlignedHeap := alignedHeap ucHeap } else s) =
      { s with pucAlignedHeap := alignedHeap ucHeap } := by
    split
    · rfl
    · next hne => rw [← h.base.resolve_left hne]
  have hfirst : (ucHeap + (portBYTE_ALIGNMENT - 1)) &&& ~~~portBYTE_ALIGNMENT_MASK = alignedHeap ucHeap := rfl
  simp only [pvPortMalloc, hfirst, hbase, room_iff h]

theorem inv_step {ucHeap : UInt32} {s : State} (hfits : ucHeap.toNat + 5000 ≤ 2 ^ 32) (h : Inv ucHeap s) (n : UInt32) :
    Inv ucHeap (pvPortMalloc ucHeap n s).2 := by
  rw [pvPortMalloc_eq h]
  split
  · next hroom =>
    obtain ⟨hn, hlt⟩ := hroom
    have hsize : (alignedSize n).toNat = roundUp n.toNat := by
      rw [toNat_alignedSize, if_pos (by omega)]
    have hbase := toNat_alignedHeap hfits
    have hstart : roundUp ucHeap.toNat ≤ ucHeap.toNat + 7 := by rw [roundUp]; omega
    have hused : used (⟨alignedHeap ucHeap + s.xNextFreeByte, n⟩ :: s.blocks) = used s.blocks + roundUp n.toNat :=
      Nat.add_comm _ _
    refine ⟨.inr rfl, ?_, ?_, ?_, hn, h.laid⟩
    · rw [hused, UInt32.toNat_add, h.next, hsize, Nat.mod_eq_of_lt (by omega)]
    · rw [hused]
      exact hlt
    · rw [UInt32.toNat_add, h.next, Nat.mod_eq_of_lt (by omega)]
  · exact ⟨.inr rfl, h.next, h.room, h.laid⟩

theorem used_mod (bs : List Block) : used bs % 8 = 0 := by
  induction bs with
  | nil => rfl
  | cons b bs ih =>
    have hused : used (b :: bs) = roundUp b.xWantedSize.toNat + used bs := rfl
    rw [hused, roundUp]
    omega

/-- The blocks, from the positions they have been laid at. -/
theorem Laid.mem {base : Nat} {bs : List Block} (h : Laid base bs) :
    (∀ b ∈ bs, base ≤ b.pv.toNat ∧ (b.pv.toNat - base) % 8 = 0 ∧
      b.pv.toNat + roundUp b.xWantedSize.toNat ≤ base + used bs) ∧
    bs.Pairwise (fun b' b => b.pv.toNat + roundUp b.xWantedSize.toNat ≤ b'.pv.toNat) := by
  induction bs with
  | nil => exact ⟨nofun, List.Pairwise.nil⟩
  | cons b bs ih =>
    obtain ⟨hpv, -, hlaid⟩ := h
    obtain ⟨hinside, hpairwise⟩ := ih hlaid
    have hused : used (b :: bs) = roundUp b.xWantedSize.toNat + used bs := rfl
    refine ⟨?_, List.pairwise_cons.mpr ⟨?_, hpairwise⟩⟩
    · intro b' hb'
      rw [hused]
      rcases List.mem_cons.mp hb' with rfl | hb'
      · have := used_mod bs
        omega
      · have := hinside b' hb'
        omega
    · intro b' hb'
      rw [hpv]
      exact (hinside b' hb').2.2

/-- **The blocks are aligned, inside the heap and apart**, and no call fails for which there is
room. -/
theorem blocks_apart {ucHeap : UInt32} (hpos : 0 < ucHeap) (hfits : ucHeap.toNat + 5000 ≤ 2 ^ 32)
    {sizes : List UInt32} {s : State} (hrun : exec (step ucHeap) init sizes = some s) :
    (∀ b ∈ s.blocks, b.pv.toNat % 8 = 0 ∧ ucHeap ≤ b.pv ∧
      b.pv.toNat + roundUp b.xWantedSize.toNat ≤ ucHeap.toNat + 5000) ∧
    s.blocks.Pairwise (fun b' b => b.pv.toNat + roundUp b.xWantedSize.toNat ≤ b'.pv.toNat) ∧
    (xPortGetFreeHeapSize s).toNat + used s.blocks = 4992 ∧
    ∀ n, (pvPortMalloc ucHeap n s).1 ≠ 0 ↔ 0 < n ∧ roundUp n.toNat < (xPortGetFreeHeapSize s).toNat := by
  have hbase := toNat_alignedHeap hfits
  have hstart : ucHeap.toNat ≤ roundUp ucHeap.toNat ∧ roundUp ucHeap.toNat ≤ ucHeap.toNat + 7 ∧
      roundUp ucHeap.toNat % 8 = 0 := by
    rw [roundUp]
    omega
  have hinv : Inv ucHeap s := by
    refine exec_inv (I := Inv ucHeap) ?_ hrun ⟨.inl rfl, rfl, by decide, trivial⟩
    intro u n u' hinv hs
    exact Option.some.inj hs ▸ inv_step hfits hinv n
  obtain ⟨hinside, hpairwise⟩ := hinv.laid.mem
  have hroom := hinv.room
  have hfree : (xPortGetFreeHeapSize s).toNat = 4992 - used s.blocks := by
    rw [xPortGetFreeHeapSize, UInt32.toNat_sub_of_le, hinv.next]
    · rfl
    · rw [UInt32.le_iff_toNat_le, hinv.next]
      exact Nat.le_of_lt hroom
  refine ⟨?_, hpairwise, by omega, ?_⟩
  · intro b hb
    have := hinside b hb
    rw [hbase] at this
    refine ⟨by omega, ?_, by omega⟩
    rw [UInt32.le_iff_toNat_le]
    omega
  · intro n
    rw [pvPortMalloc_eq hinv, hfree]
    split
    · next hfit =>
      refine ⟨fun _ => ⟨hfit.1, by omega⟩, fun _ hnull => ?_⟩
      -- the heap does not lie at address 0
      have hpos := UInt32.lt_iff_toNat_lt.mp hpos
      have hsum : (alignedHeap ucHeap + s.xNextFreeByte).toNat = roundUp ucHeap.toNat + used s.blocks := by
        rw [UInt32.toNat_add, hbase, hinv.next, Nat.mod_eq_of_lt (by omega)]
      have hzero : (alignedHeap ucHeap + s.xNextFreeByte).toNat = 0 := congrArg UInt32.toNat hnull
      have hlow : (0 : UInt32).toNat = 0 := rfl
      omega
    · next hfit =>
      refine ⟨fun hne => absurd rfl hne, ?_⟩
      rintro ⟨hn, hlt⟩
      exact absurd ⟨hn, by omega⟩ hfit

/-- A heap at an odd address, and three calls of which the last finds no room. -/
theorem blocks_apart_three :
    ∃ s, exec (step 0x20000001) init [13, 64, 4912] = some s ∧ s.blocks.length = 2 ∧
      (xPortGetFreeHeapSize s).toNat + used s.blocks = 4992 := by
  have hrun : exec (step 0x20000001) init [13, 64, 4912] = some _ := rfl
  exact ⟨_, hrun, by decide, (blocks_apart (by decide) (by decide) hrun).2.2.1⟩

end WindowFilter.PortMalloc
