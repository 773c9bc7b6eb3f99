import WindowFilter.CInt
import WindowFilter.Lib.Buffer
import WindowFilter.Lib.Numeral

/- `vIntToString`: a number as text in the caller's buffer.

   The digits come out lowest first, then the sign, then the end of the string, and the
   text is reversed in place. `vIntToString_eq` follows the three loops to the numeral of
   the number; the sign of `INT_MIN` cannot be taken off in an `int`, and
   `encodes_iff` says that this is the one number that goes wrong. -/
namespace WindowFilter.Common
open Buffer Numeral

/-- What a call leaves: the buffer, and whether the arithmetic left the range of `int`. -/
structure Outcome where
  str : List UInt8
  overflowed : Bool
  deriving DecidableEq

/-- The loop that writes the digits. Each pass fills one cell, so that a buffer with
`cells` more of them bounds it. -/
def digitLoop (num : Int) (i : Nat) (str : List UInt8) : (cells : Nat) → Option (List UInt8 × Nat)
  | 0 => none
  | cells + 1 => do
    let str ← put str i (UInt8.ofInt (num.tmod 10 + 48))
    if num.tdiv 10 > 0 then digitLoop (num.tdiv 10) (i + 1) str cells else some (str, i + 1)

/-- The sign, written after the digits. -/
def putSign (is_negative : Bool) (str : List UInt8) (i : Nat) : Option (List UInt8 × Nat) :=
  if is_negative then (put str i minus).map fun str => (str, i + 1) else some (str, i)

def vIntToString (num : Int) (str : List UInt8) : Option Outcome := do
  let is_negative := decide (num < 0)
  let overflowed := is_negative && !decide (InInt (-num))
  let num := if is_negative then int32 (-num) else num
  let (str, i) ← digitLoop num 0 str str.length
  let (str, i) ← putSign is_negative str i
  let str ← put str i 0
  let str ← invert 0 (i - 1) str
  some { str, overflowed }

/-- The call returns, without overflow, and leaves a canonical numeral of `num` and the end
of the string in at most twelve cells of the buffer, the others as they were. -/
def Encodes (num : Int) (str : List UInt8) : Prop :=
  ∃ o cs, vIntToString num str = some o ∧ o.overflowed = false ∧ o.str = written str (cs ++ [0]) ∧
    (cs ++ [0]).length ≤ 12 ∧ Canonical cs ∧ value cs = num

/-! ## The digits -/

theorem digit_eq (m : Nat) : UInt8.ofInt ((m : Int).tmod 10 + 48) = digitChar (m % 10) := by
  have hall : ∀ d : Fin 10, UInt8.ofInt ((d.val : Int) + 48) = digitChar d.val := by decide
  have hmod : (m : Int).tmod 10 = ((m % 10 : Nat) : Int) := by
    rw [Int.tmod_eq_emod_of_nonneg (by omega)]
    omega
  rw [hmod]
  exact hall ⟨m % 10, by omega⟩

theorem tdiv_ten (m : Nat) : (m : Int).tdiv 10 = ((m / 10 : Nat) : Int) := by
  rw [Int.tdiv_eq_ediv_of_nonneg (by omega)]
  omega

/-- The loop writes the digits, lowest first, into the next cells. -/
theorem digitLoop_eq (m : Nat) (str cs : List UInt8) (cells : Nat)
    (hstr : cs.length + (lowDigits m).length ≤ str.length) (hcells : (lowDigits m).length ≤ cells) :
    digitLoop m cs.length (written str cs) cells =
      some (written str (cs ++ (lowDigits m).map digitChar), cs.length + (lowDigits m).length) := by
  have hpos := lowDigits_length_pos m
  induction cells generalizing m cs with
  | zero => omega
  | succ cells ih =>
    rw [digitLoop, put_written (by omega), digit_eq, tdiv_ten]
    show (if ((m / 10 : Nat) : Int) > 0 then _ else _) = _
    by_cases hm : 10 ≤ m
    · rw [lowDigits_step hm] at hstr hcells ⊢
      simp only [List.length_cons] at hstr hcells
      have hnext := ih (m / 10) (cs ++ [digitChar (m % 10)])
        (by rw [List.length_append, List.length_singleton]; omega) (by omega) (lowDigits_length_pos _)
      rw [List.length_append, List.length_singleton] at hnext
      rw [if_pos (by omega), hnext, List.map_cons, List.length_cons, List.append_assoc, List.singleton_append,
        Nat.add_assoc, Nat.add_comm 1]
    · rw [lowDigits_last (by omega), if_neg (by omega), Nat.mod_eq_of_lt (by omega)]
      rfl

/-! ## The text -/

theorem putSign_eq {str cs : List UInt8} (is_negative : Bool) (h : cs.length < str.length) :
    putSign is_negative (written str cs) cs.length =
      some (written str (cs ++ signText is_negative), (cs ++ signText is_negative).length) := by
  cases is_negative with
  | false => rw [putSign, signText, if_neg (by simp), if_neg (by simp), List.append_nil]
  | true =>
    rw [putSign, signText, if_pos rfl, if_pos rfl, put_written h, List.length_append]
    rfl

/-- What the function makes of the characters `ds` that the loop has written. -/
theorem vIntToString_of_loop {num : Int} {str ds : List UInt8} (hroom : ds.length + 2 ≤ str.length)
    (hloop : digitLoop (if decide (num < 0) = true then int32 (-num) else num) 0 str str.length =
      some (written str ds, ds.length)) :
    vIntToString num str =
      some { str := written str (signText (decide (num < 0)) ++ ds.reverse ++ [0]),
             overflowed := decide (num < 0) && !decide (InInt (-num)) } := by
  have hsign : (signText (decide (num < 0))).length ≤ 1 := by
    rw [signText]
    split_ifs <;> simp
  have htext : (ds ++ signText (decide (num < 0))).length < str.length := by
    rw [List.length_append]
    omega
  have hreverse : (ds ++ signText (decide (num < 0))).reverse = signText (decide (num < 0)) ++ ds.reverse := by
    rw [List.reverse_append]
    congr 1
    rw [signText]
    split_ifs <;> rfl
  have hsigned := @putSign_eq str ds (decide (num < 0)) (by omega)
  simp only [vIntToString, hloop, hsigned, Option.bind_eq_bind, Option.bind_some, put_written htext, invert_written,
    hreverse]

theorem numeral_length_eleven {num : Int} (hint : InInt num) : (numeral num).length ≤ 11 := by
  apply numeral_length_le
  rw [inInt_iff] at hint
  omega

/-- But for `INT_MIN` the text is the numeral of the number. -/
theorem vIntToString_eq {num : Int} {str : List UInt8} (hint : InInt num) (hmin : num ≠ INT_MIN)
    (hstr : 12 ≤ str.length) :
    vIntToString num str = some { str := written str (numeral num ++ [0]), overflowed := false } := by
  rw [inInt_iff] at hint
  have hneg : InInt (-num) := by
    rw [inInt_iff]
    rw [INT_MIN] at hmin
    omega
  have hheld : (if decide (num < 0) = true then int32 (-num) else num) = num.natAbs := by
    by_cases h : num < 0
    · rw [decide_eq_true h, if_pos rfl, int32_eq hneg]
      omega
    · rw [decide_eq_false h, if_neg (by simp)]
      omega
  have hlen : (lowDigits num.natAbs).length ≤ 9 + 1 := lowDigits_length_le (by omega)
  have hloop := digitLoop_eq num.natAbs str [] str.length (by rw [List.length_nil]; omega) (by omega)
  rw [written_nil, List.length_nil, List.nil_append, Nat.zero_add, ← List.length_map digitChar, ← hheld] at hloop
  rw [vIntToString_of_loop (by rw [List.length_map]; omega) hloop, decide_eq_true hneg, Bool.not_true, Bool.and_false]
  rfl

/-- `INT_MIN` is still negative once its sign has been taken off, and the loop ends after
one pass: the text is "-(". -/
theorem vIntToString_min {str : List UInt8} (hstr : 12 ≤ str.length) :
    vIntToString INT_MIN str = some { str := written str ([45, 40] ++ [0]), overflowed := true } := by
  obtain ⟨cells, hcells⟩ : ∃ cells, str.length = cells + 1 := ⟨str.length - 1, by omega⟩
  have hput := @put_written _ str [] (by rw [List.length_nil]; omega) 40
  rw [written_nil, List.length_nil, List.nil_append] at hput
  have hloop : digitLoop (if decide (INT_MIN < 0) = true then int32 (-INT_MIN) else INT_MIN) 0 str str.length =
      some (written str [40], [(40 : UInt8)].length) := by
    have hheld : (if decide (INT_MIN < 0) = true then int32 (-INT_MIN) else INT_MIN) = INT_MIN := by decide
    have hchar : UInt8.ofInt (INT_MIN.tmod 10 + 48) = 40 := by decide
    rw [hheld, hcells, digitLoop, hchar, hput]
    rfl
  exact vIntToString_of_loop (by rw [List.length_singleton]; omega) hloop

/-- Any buffer of twelve cells is enough to return. -/
theorem vIntToString_returns {num : Int} {str : List UInt8} (hint : InInt num) (hstr : 12 ≤ str.length) :
    ∃ o, vIntToString num str = some o ∧ o.str.length = str.length := by
  by_cases hmin : num = INT_MIN
  · subst hmin
    refine ⟨_, vIntToString_min hstr, written_length ?_⟩
    show 3 ≤ str.length
    omega
  · have hlen := numeral_length_eleven hint
    refine ⟨_, vIntToString_eq hint hmin hstr, written_length ?_⟩
    rw [List.length_append, List.length_singleton]
    omega

/-- **A number and its text.** The function writes a canonical numeral of the number, in
at most twelve cells and without overflow, if and only if the number is not `INT_MIN`. -/
theorem encodes_iff {num : Int} {str : List UInt8} (hint : InInt num) (hstr : 12 ≤ str.length) :
    Encodes num str ↔ num ≠ INT_MIN := by
  refine ⟨?_, ?_⟩
  · intro h hmin
    obtain ⟨o, cs, hrun, hflag, -⟩ := h
    rw [hmin, vIntToString_min hstr] at hrun
    obtain rfl := Option.some.inj hrun
    exact Bool.noConfusion hflag
  · intro hmin
    have hlen := numeral_length_eleven hint
    refine ⟨_, numeral num, vIntToString_eq hint hmin hstr, rfl, rfl, ?_, numeral_canonical num, value_numeral num⟩
    rw [List.length_append, List.length_singleton]
    omega

theorem encodes_iff_fifty : Encodes (-40) (List.replicate 50 0) ↔ (-40 : Int) ≠ INT_MIN := by
  apply encodes_iff
  · decide
  · rw [List.length_replicate]
    decide

/-- What is left of `INT_MIN` is the text "-(". -/
theorem min_not_encoded :
    vIntToString INT_MIN (List.replicate 12 0) =
        some { str := [45, 40, 0, 0, 0, 0, 0, 0, 0, 0, 0, 0], overflowed := true } ∧
      ¬ Encodes INT_MIN (List.replicate 12 0) := by
  have hrun : vIntToString INT_MIN (List.replicate 12 0) =
      some { str := [45, 40, 0, 0, 0, 0, 0, 0, 0, 0, 0, 0], overflowed := true } := by decide
  refine ⟨hrun, ?_⟩
  intro h
  obtain ⟨o, cs, ho, hflag, -⟩ := h
  rw [hrun] at ho
  obtain rfl := Option.some.inj ho
  exact Bool.noConfusion hflag

end WindowFilter.Common
