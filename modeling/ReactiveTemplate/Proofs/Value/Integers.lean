import Mathlib
import ReactiveTemplate.Value.Conversion

/-!
# Integers as doubles

An integer below nine quadrillion that a double is reads back as that double: its digits are those
of the mantissa, and the nearest double of such an integer is the integer itself.

* `Number.magnitudeBits_of_normal`: the word of an integer with a mantissa of 53 binary digits.
* `Number.toFloat_integer?`: an integer that a double is, read back.
-/

namespace ReactiveTemplate.Number

/-! ## Words -/

theorem roundHalfEven_one (n : Nat) : roundHalfEven n 1 = n := by
  simp [roundHalfEven, Nat.mod_one]

/-- The unit of an integer whose binary digits are those of a normal mantissa, shifted. -/
theorem unitExponent_of_normal {c s : Nat} (hlow : 2 ^ 52 ≤ c * 2 ^ s) (hhigh : c * 2 ^ s < 2 ^ 53)
    (hs : s ≤ 52) : unitExponent c 1 = -(s : Int) := by
  have hpos : 0 < 2 ^ s := Nat.two_pow_pos s
  have hlog : c.log2 = 52 - s := by
    have hsplit : 2 ^ 52 = 2 ^ (52 - s) * 2 ^ s := by rw [← Nat.pow_add, Nat.sub_add_cancel hs]
    have hsplit' : 2 ^ 53 = 2 ^ (52 - s + 1) * 2 ^ s := by
      rw [← Nat.pow_add, show 52 - s + 1 + s = 53 by omega]
    have hzero : c ≠ 0 := by
      rintro rfl
      rw [Nat.zero_mul] at hlow
      exact absurd hlow (by decide)
    rw [Nat.log2_eq_iff hzero]
    rw [hsplit] at hlow
    rw [hsplit'] at hhigh
    exact ⟨Nat.le_of_mul_le_mul_right hlow hpos, Nat.lt_of_mul_lt_mul_right hhigh⟩
  have hone : Nat.log2 1 = 0 := by decide
  have hfirst : Int.ofNat c.log2 - Int.ofNat (Nat.log2 1) - 53 = -((s + 1 : Nat) : Int) := by
    rw [hlog, hone]
    simp only [Int.ofNat_eq_natCast]
    omega
  have hscaled : 1 * 2 ^ (-((s + 1 : Nat) : Int)).toNat * 2 ^ 53 ≤ c * 2 ^ (s + 1) := by
    have hnone : (-((s + 1 : Nat) : Int)).toNat = 0 := by omega
    rw [hnone, Nat.pow_succ 2 s, ← Nat.mul_assoc]
    omega
  simp only [unitExponent, hfirst, scaleDown, neg_neg, Int.toNat_natCast, Nat.pow_eq]
  rw [if_pos hscaled, leastExponent]
  omega

theorem magnitudeBits_of_normal {c s : Nat} (hlow : 2 ^ 52 ≤ c * 2 ^ s)
    (hhigh : c * 2 ^ s < 2 ^ 53) (hs : s ≤ 52) :
    magnitudeBits c 1 = (1074 - s) * 2 ^ 52 + c * 2 ^ s := by
  have hfield : (-(s : Int) - leastExponent).toNat = 1074 - s := by
    rw [leastExponent]
    omega
  have hnone : (-(s : Int)).toNat = 0 := by omega
  simp only [magnitudeBits, unitExponent_of_normal hlow hhigh hs, scaleDown, hfield, neg_neg,
    Int.toNat_natCast, hnone, Nat.pow_eq, Nat.pow_zero, Nat.mul_one, roundHalfEven_one]
  refine Nat.min_eq_right ?_
  rw [infinityWord]
  omega

/-- A double is its sign and the word of its magnitude. -/
theorem ofWord_toBits (x : Float) :
    ofWord (decide (2 ^ 63 ≤ x.toBits.toNat)) (x.toBits.toNat % 2 ^ 63) = x := by
  have hlt : x.toBits.toNat < 2 ^ 64 := x.toBits.toNat_lt
  have hword : (if decide (2 ^ 63 ≤ x.toBits.toNat) then 2 ^ 63 + x.toBits.toNat % 2 ^ 63
      else x.toBits.toNat % 2 ^ 63) = x.toBits.toNat := by
    split
    · next hnegative =>
      have := of_decide_eq_true hnegative
      omega
    · next hnegative =>
      have : ¬ 2 ^ 63 ≤ x.toBits.toNat := fun h => hnegative (decide_eq_true h)
      omega
  rw [ofWord, Nat.pow_eq, hword, UInt64.ofNat_toNat, Float.ofBits_toBits]

/-! ## Reading back -/

/-- A decimal without a fraction is the double nearest to its digits. -/
theorem toFloat_of_digits {negative : Bool} {c : Nat} (hpos : 0 < c) (hsmall : c < 10 ^ 16) :
    (Decimal.mk negative c 0).toFloat = ofWord negative (magnitudeBits c 1) := by
  have hlength : (Nat.repr c).length ≤ 16 := (Nat.length_repr_le_iff (by decide)).2 hsmall
  have hbig : ¬ 400 < 0 + Int.ofNat (Nat.repr c).length := by
    simp only [Int.ofNat_eq_natCast]
    omega
  have hmany : ¬ 0 + Int.ofNat (Nat.repr c).length < -400 := by
    simp only [Int.ofNat_eq_natCast]
    omega
  rw [Decimal.toFloat, if_neg (Nat.ne_of_gt hpos)]
  simp only [hbig, hmany, if_false, Int.neg_zero, Int.toNat_zero, Nat.pow_eq, Nat.pow_zero,
    Nat.mul_one]

/-- The word of a finite double holds its parts: the exponent counts from the least one, and the
    mantissa has 53 binary digits unless the exponent is the least one. -/
theorem word_of_ofFloat {x : Float} {negative : Bool} {m : Nat} {q : Int}
    (hparts : Binary.ofFloat x = .finite negative m q) :
    negative = decide (2 ^ 63 ≤ x.toBits.toNat) ∧ m < 2 ^ 53 ∧ leastExponent ≤ q ∧
      (q = leastExponent ∨ 2 ^ 52 ≤ m) ∧
      x.toBits.toNat % 2 ^ 63 = (q - leastExponent).toNat * 2 ^ 52 + m := by
  rw [Binary.ofFloat] at hparts
  simp only [Nat.pow_eq] at hparts
  generalize x.toBits.toNat = word at hparts ⊢
  by_cases hspecial : word / 2 ^ 52 % 2 ^ 11 = 2047
  · rw [if_pos hspecial] at hparts
    split at hparts <;> cases hparts
  rw [if_neg hspecial] at hparts
  by_cases hsubnormal : word / 2 ^ 52 % 2 ^ 11 = 0
  · rw [if_pos hsubnormal] at hparts
    obtain ⟨rfl, rfl, rfl⟩ := Binary.finite.inj hparts
    exact ⟨rfl, by omega, le_refl _, .inl rfl, by omega⟩
  · rw [if_neg hsubnormal] at hparts
    obtain ⟨rfl, rfl, rfl⟩ := Binary.finite.inj hparts
    rw [leastExponent, Int.ofNat_eq_natCast]
    exact ⟨rfl, by omega, by omega, .inr (by omega), by omega⟩

/-- A normal mantissa that stands for an integer of at most 53 binary digits has its last digit
    before the point, and the integer has the digits before it. -/
theorem digits_of_mantissa {m c : Nat} {q : Int} (hm : 2 ^ 52 ≤ m)
    (hwhole : m % 2 ^ (-q).toNat = 0) (hc : c = m / 2 ^ (-q).toNat * 2 ^ q.toNat)
    (hsmall : c < 2 ^ 53) : q ≤ 0 ∧ c * 2 ^ (-q).toNat = m := by
  have hq : q ≤ 0 := by
    by_contra hpositive
    have hpow : 2 ^ 1 ≤ 2 ^ q.toNat := Nat.pow_le_pow_right (by decide) (by omega)
    have hlarge : 2 ^ 52 * 2 ^ 1 ≤ m * 2 ^ q.toNat := Nat.mul_le_mul hm hpow
    rw [show (-q).toNat = 0 by omega, Nat.pow_zero, Nat.div_one] at hc
    omega
  refine ⟨hq, ?_⟩
  rw [hc, show q.toNat = 0 by omega, Nat.pow_zero, Nat.mul_one,
    Nat.div_mul_cancel (Nat.dvd_of_mod_eq_zero hwhole)]

/-- The word of a double that is an integer of at most 53 binary digits: it is zero, or the integer
    is its mantissa without trailing zeros. -/
theorem word_of_integer? {x : Float} {n : Int} (hinteger : integer? x = some n)
    (hsmall : n.natAbs < 2 ^ 53) :
    n = 0 ∧ x.toBits.toNat % 2 ^ 63 = 0 ∨
      ∃ s ≤ 52, decide (n < 0) = decide (2 ^ 63 ≤ x.toBits.toNat) ∧
        2 ^ 52 ≤ n.natAbs * 2 ^ s ∧ n.natAbs * 2 ^ s < 2 ^ 53 ∧
        x.toBits.toNat % 2 ^ 63 = (1074 - s) * 2 ^ 52 + n.natAbs * 2 ^ s := by
  rw [integer?] at hinteger
  cases hparts : Binary.ofFloat x with
  | nan | infinite =>
    rw [hparts] at hinteger
    cases hinteger
  | finite negative m q =>
    obtain ⟨hsign, hm, hleast, hnormal, hword⟩ := word_of_ofFloat hparts
    rw [← hsign, hword]
    rw [hparts] at hinteger
    dsimp only at hinteger
    rw [Option.ite_none_right_eq_some, Option.some.injEq] at hinteger
    obtain ⟨hwhole, hn⟩ := hinteger
    simp only [Nat.pow_eq, Int.ofNat_eq_natCast] at hwhole hn
    by_cases hfraction : q < -52
    · -- All binary digits of the mantissa lie behind the point.
      have hpow : 2 ^ 53 ≤ 2 ^ (-q).toNat := Nat.pow_le_pow_right (by decide) (by omega)
      have hzero : m = 0 := by
        rw [Nat.mod_eq_of_lt (by omega)] at hwhole
        exact hwhole
      subst hzero
      rw [Nat.zero_div, Nat.zero_mul] at hn
      refine .inl ⟨?_, ?_⟩
      · split at hn <;> omega
      · rcases hnormal with rfl | hm'
        · rfl
        · omega
    · have hsize : n.natAbs = m / 2 ^ (-q).toNat * 2 ^ q.toNat := by
        rw [← hn]
        split <;> omega
      have hmantissa : 2 ^ 52 ≤ m := hnormal.resolve_left (by rw [leastExponent]; omega)
      obtain ⟨hq, hdigits⟩ := digits_of_mantissa hmantissa hwhole hsize hsmall
      have hpos : 0 < n.natAbs := Nat.pos_of_ne_zero fun hzero => by
        rw [hzero] at hdigits
        omega
      refine .inr ⟨(-q).toNat, by omega, ?_, by omega, by omega, ?_⟩
      · cases negative <;> simp only [if_true, if_false, Bool.false_eq_true] at hn <;>
          simp only [decide_eq_true_eq, decide_eq_false_iff_not] <;> omega
      · have hfield : (q - leastExponent).toNat = 1074 - (-q).toNat := by
          rw [leastExponent]
          omega
        rw [hdigits, hfield]

/-- An integer below nine quadrillion that a double is reads back as that double, but for the sign
    of a zero. -/
theorem toFloat_integer? {x : Float} {n : Int} (hinteger : integer? x = some n)
    (hsmall : n.natAbs < 9000000000000000) :
    ((Decimal.mk (decide (n < 0)) n.natAbs 0).toFloat == x) = true := by
  rcases word_of_integer? hinteger (by omega) with ⟨rfl, hzero⟩ | ⟨s, hs, hsign, hlow, hhigh, hword⟩
  · -- Both zeros are equal to the positive one.
    rw [← ofWord_toBits x, hzero]
    cases decide (2 ^ 63 ≤ x.toBits.toNat) <;> decide
  · have hpos : 0 < n.natAbs := Nat.pos_of_ne_zero fun hzero => by
      rw [hzero] at hlow
      omega
    rw [toFloat_of_digits hpos (by omega), magnitudeBits_of_normal hlow hhigh hs, ← hword, hsign,
      ofWord_toBits, Float.beq_self_iff]
    rintro rfl
    have hnan : integer? Float.nan = none := by decide
    rw [hnan] at hinteger
    cases hinteger

end ReactiveTemplate.Number
