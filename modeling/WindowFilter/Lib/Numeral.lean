import Mathlib.Data.Nat.Digits.Lemmas

/- Decimal numerals as text, a byte for each character.

   What a text says is read off the text alone: `Canonical` is its form and `value` the
   number it stands for. `numeral` writes a number, its digits from `Nat.digits`;
   `numeral_canonical` and `value_numeral` say that it writes what is read back. -/
namespace Numeral

/-! ## Reading -/

def minus : UInt8 := 45
def zero : UInt8 := 48

def IsDigit (c : UInt8) : Prop := 48 ≤ c.toNat ∧ c.toNat ≤ 57

/-- The number a row of digits stands for, the highest first. -/
def digitsValue (cs : List UInt8) : Nat := cs.foldl (fun v c => 10 * v + (c.toNat - 48)) 0

/-- The text without its sign. -/
def magnitude (cs : List UInt8) : List UInt8 := if cs.head? = some minus then cs.tail else cs

/-- The number a numeral stands for. -/
def value (cs : List UInt8) : Int :=
  if cs.head? = some minus then -(digitsValue (magnitude cs) : Int) else digitsValue (magnitude cs)

/-- An optional minus sign and at least one digit; a leading zero, signed or not, only in
the numeral of zero itself. -/
structure Canonical (cs : List UInt8) : Prop where
  nonempty : magnitude cs ≠ []
  digits : ∀ c ∈ magnitude cs, IsDigit c
  leading : (magnitude cs).head? = some zero → cs = [zero]

/-! ## Writing -/

def digitChar (d : Nat) : UInt8 := UInt8.ofNat (48 + d)

/-- The digits of a number, the lowest first, and a single one for zero. -/
def lowDigits (m : Nat) : List Nat := m % 10 :: Nat.digits 10 (m / 10)

/-- The numeral of a natural number. -/
def decimal (m : Nat) : List UInt8 := ((lowDigits m).map digitChar).reverse

def signText (negative : Bool) : List UInt8 := if negative then [minus] else []

/-- The numeral of an integer. -/
def numeral (x : Int) : List UInt8 := signText (decide (x < 0)) ++ decimal x.natAbs

theorem toNat_digitChar {d : Nat} (h : d < 10) : (digitChar d).toNat = 48 + d := by
  rw [digitChar, UInt8.toNat_ofNat']
  omega

theorem lowDigits_last {m : Nat} (h : m < 10) : lowDigits m = [m] := by
  rw [lowDigits, Nat.div_eq_of_lt h, Nat.mod_eq_of_lt h, Nat.digits_zero]

theorem lowDigits_step {m : Nat} (h : 10 ≤ m) : lowDigits m = m % 10 :: lowDigits (m / 10) := by
  have hpos : m / 10 ≠ 0 := by omega
  rw [lowDigits, Nat.digits_eq_cons_digits_div (by omega) hpos]
  rfl

theorem decimal_last {m : Nat} (h : m < 10) : decimal m = [digitChar m] := by
  rw [decimal, lowDigits_last h]
  rfl

theorem decimal_step {m : Nat} (h : 10 ≤ m) : decimal m = decimal (m / 10) ++ [digitChar (m % 10)] := by
  rw [decimal, lowDigits_step h, List.map_cons, List.reverse_cons]
  rfl

theorem lowDigits_length_pos (m : Nat) : 0 < (lowDigits m).length := Nat.succ_pos _

/-- Below `10 ^ (k + 1)` there are at most `k + 1` digits. -/
theorem lowDigits_length_le {k m : Nat} (h : m < 10 ^ (k + 1)) : (lowDigits m).length ≤ k + 1 := by
  have hdiv : m / 10 < 10 ^ k := by
    rw [pow_succ] at h
    omega
  have hlen : (Nat.digits 10 (m / 10)).length ≤ k := (Nat.digits_length_le_iff (by omega) _).mpr hdiv
  simpa [lowDigits] using hlen

theorem decimal_length (m : Nat) : (decimal m).length = (lowDigits m).length := by
  rw [decimal, List.length_reverse, List.length_map]

/-! ## What is written is read back -/

theorem digitsValue_snoc (cs : List UInt8) (c : UInt8) :
    digitsValue (cs ++ [c]) = 10 * digitsValue cs + (c.toNat - 48) := by
  rw [digitsValue, List.foldl_append]
  rfl

theorem digitsValue_decimal (m : Nat) : digitsValue (decimal m) = m := by
  induction m using Nat.strong_induction_on with
  | _ m ih =>
    by_cases hm : m < 10
    · have hchar := toNat_digitChar hm
      rw [decimal_last hm, ← List.nil_append [digitChar m], digitsValue_snoc, hchar]
      show 10 * 0 + _ = _
      omega
    · have hchar := toNat_digitChar (Nat.mod_lt m (by omega : 10 > 0))
      rw [decimal_step (by omega), digitsValue_snoc, ih (m / 10) (by omega), hchar]
      omega

theorem isDigit_decimal (m : Nat) : ∀ c ∈ decimal m, IsDigit c := by
  intro c hc
  rw [decimal, List.mem_reverse, List.mem_map] at hc
  obtain ⟨d, hd, rfl⟩ := hc
  have hlt : d < 10 := by
    obtain rfl | hd := List.mem_cons.mp hd
    · omega
    · exact Nat.digits_lt_base (by omega) hd
  rw [IsDigit, toNat_digitChar hlt]
  omega

theorem decimal_ne_nil (m : Nat) : decimal m ≠ [] := by
  rw [← List.length_pos_iff, decimal_length]
  exact lowDigits_length_pos m

theorem head_decimal_ne_minus (m : Nat) : (decimal m).head? ≠ some minus := by
  intro h
  have hdigit := isDigit_decimal m minus (List.mem_of_head? h)
  exact absurd hdigit.1 (by decide)

/-- Only zero is written with a zero in front. -/
theorem head_decimal {m : Nat} (h : (decimal m).head? = some zero) : m = 0 := by
  induction m using Nat.strong_induction_on with
  | _ m ih =>
    by_cases hm : m < 10
    · rw [decimal_last hm] at h
      have hzero : (digitChar m).toNat = zero.toNat := congrArg UInt8.toNat (Option.some.inj h)
      rw [toNat_digitChar hm] at hzero
      have : zero.toNat = 48 := rfl
      omega
    · rw [decimal_step (by omega), List.head?_append_of_ne_nil _ (decimal_ne_nil _)] at h
      have := ih (m / 10) (by omega) h
      omega

theorem numeral_neg {x : Int} (h : x < 0) : numeral x = minus :: decimal x.natAbs := by
  rw [numeral, decide_eq_true h]
  rfl

theorem numeral_nonneg {x : Int} (h : 0 ≤ x) : numeral x = decimal x.natAbs := by
  rw [numeral, decide_eq_false (by omega)]
  rfl

theorem magnitude_numeral (x : Int) : magnitude (numeral x) = decimal x.natAbs := by
  obtain h | h := lt_or_ge x 0
  · rw [numeral_neg h, magnitude, if_pos (by rfl)]
    rfl
  · rw [numeral_nonneg h, magnitude, if_neg (head_decimal_ne_minus _)]

theorem numeral_canonical (x : Int) : Canonical (numeral x) := by
  refine ⟨?_, ?_, ?_⟩
  · rw [magnitude_numeral]
    exact decimal_ne_nil _
  · rw [magnitude_numeral]
    exact isDigit_decimal _
  · intro h
    rw [magnitude_numeral] at h
    have hx : x = 0 := by
      have := head_decimal h
      omega
    subst hx
    rfl

theorem value_numeral (x : Int) : value (numeral x) = x := by
  rw [value, magnitude_numeral, digitsValue_decimal]
  obtain h | h := lt_or_ge x 0
  · rw [numeral_neg h, if_pos (by rfl)]
    omega
  · rw [numeral_nonneg h, if_neg (head_decimal_ne_minus _)]
    omega

/-- A numeral can end in a null byte, for none of its characters is one. -/
theorem numeral_ne_null (x : Int) : ∀ c ∈ numeral x, c ≠ 0 := by
  have hdecimal : ∀ c ∈ decimal x.natAbs, c ≠ 0 := by
    rintro c hc rfl
    exact absurd (isDigit_decimal _ _ hc).1 (by decide)
  obtain h | h := lt_or_ge x 0
  · rw [numeral_neg h]
    intro c hc
    obtain rfl | hc := List.mem_cons.mp hc
    · decide
    · exact hdecimal c hc
  · rw [numeral_nonneg h]
    exact hdecimal

theorem numeral_length_le {k : Nat} {x : Int} (h : x.natAbs < 10 ^ (k + 1)) : (numeral x).length ≤ k + 2 := by
  have hlen := lowDigits_length_le h
  obtain hx | hx := lt_or_ge x 0
  · rw [numeral_neg hx, List.length_cons, decimal_length]
    omega
  · rw [numeral_nonneg hx, decimal_length]
    omega

end Numeral
