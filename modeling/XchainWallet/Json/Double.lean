import XchainWallet.Decimal.Plain

/-!
# Numbers of 64 bits and their decimal texts

A finite number is an integer of least units, of which there are `2 ^ pointBits` in one, with no more
than 53 significant bits. `nearestDouble` rounds a quotient of units to the nearest such number, a
tie to the even significand, and `ofDecimal` reads digits with an exponent of ten through it.
`shortestDecimal` is the other direction: the shortest digits that read back as the number, the
closest of several. Every such number is read back (`ofDecimal_shortestDecimal`).

The two zeros are one number here, as they are for the operator of equality.
-/

namespace Json

open Decimal

/-! ### Rounding -/

/-- The bits of a number below the point. -/
@[irreducible]
def pointBits : ℕ := 1074

/-- Whether so many least units are a number of 64 bits: one below `2 ^ 1024`, of 53 bits. -/
def IsDouble (units : ℕ) : Prop :=
  2 ^ (units.log2 - 52) ∣ units ∧ units < 2 ^ (pointBits + 1024)

instance (units : ℕ) : Decidable (IsDouble units) := inferInstanceAs (Decidable (_ ∧ _))

/-- The integer nearest to a quotient, the even one of two. -/
def roundHalfEven (a b : ℕ) : ℕ :=
  if 2 * (a % b) < b then a / b
  else if b < 2 * (a % b) then a / b + 1
  else a / b + a / b % 2

/-- The number nearest to `a / b` least units, and `none` where that lies beyond the largest. -/
def nearestDouble (a b : ℕ) : Option {units : ℕ // IsDouble units} :=
  let exponent := (a / b).log2 - 52
  let units := roundHalfEven a (b * 2 ^ exponent) * 2 ^ exponent
  if h : IsDouble units then some ⟨units, h⟩ else none

theorem roundHalfEven_mul (m : ℕ) {b : ℕ} (hb : 0 < b) : roundHalfEven (m * b) b = m := by
  rw [roundHalfEven, Nat.mul_mod_left, if_pos (by omega), Nat.mul_div_cancel m hb]

/-- **A number is the nearest one to itself.** -/
theorem nearestDouble_self {units b : ℕ} (h : IsDouble units) (hb : 0 < b) :
    nearestDouble (units * b) b = some ⟨units, h⟩ := by
  have hquotient : units * b / b = units := Nat.mul_div_cancel units hb
  obtain ⟨m, hm⟩ := h.1
  have hrounded : roundHalfEven (units * b) (b * 2 ^ (units.log2 - 52)) = m := by
    have hproduct : units * b = m * (b * 2 ^ (units.log2 - 52)) := by
      nth_rewrite 1 [hm]
      ring
    rw [hproduct]
    exact roundHalfEven_mul m (by positivity)
  have hunits : m * 2 ^ (units.log2 - 52) = units := by rw [Nat.mul_comm, ← hm]
  simp only [nearestDouble, hquotient, hrounded, hunits]
  rw [dif_pos h]

/-! ### Digits with an exponent -/

/-- The number nearest to `digits * 10 ^ exponent`. -/
def ofDecimal (digits : ℕ) (exponent : ℤ) : Option {units : ℕ // IsDouble units} :=
  nearestDouble (digits * 10 ^ exponent.toNat * 2 ^ pointBits) (10 ^ (-exponent).toNat)

theorem isDouble_zero : IsDouble 0 := ⟨dvd_zero _, Nat.two_pow_pos _⟩

theorem ofDecimal_zero (exponent : ℤ) : ofDecimal 0 exponent = some ⟨0, isDouble_zero⟩ := by
  have hpos : 0 < 10 ^ (-exponent).toNat := by positivity
  have hself := nearestDouble_self isDouble_zero hpos
  rw [Nat.zero_mul] at hself
  rw [ofDecimal, Nat.zero_mul, Nat.zero_mul]
  exact hself

/-- Trailing zeros of the digits may be counted in the exponent. -/
theorem ofDecimal_mul_pow (digits zeros : ℕ) :
    ofDecimal (digits * 10 ^ zeros) 0 = ofDecimal digits zeros := by
  have hdigits : digits * 10 ^ zeros * 10 ^ (0 : ℤ).toNat = digits * 10 ^ zeros := Nat.mul_one _
  have hdown : (-(zeros : ℤ)).toNat = (-0 : ℤ).toNat := Int.toNat_neg_natCast zeros
  rw [ofDecimal, ofDecimal, hdigits, hdown, Int.toNat_natCast]

/-- The digits of all of a number: there are that many times `10 ^ -pointBits` in it. -/
def exactDigits (units : ℕ) : ℕ := units * 5 ^ pointBits

private theorem five_pow_mul_two_pow (n : ℕ) : 5 ^ n * 2 ^ n = 10 ^ n := by
  rw [← Nat.mul_pow]

theorem ofDecimal_exactDigits {units : ℕ} (h : IsDouble units) :
    ofDecimal (exactDigits units) (-pointBits) = some ⟨units, h⟩ := by
  have hdown : (-(-(pointBits : ℤ))).toNat = pointBits := by omega
  have hup : (-(pointBits : ℤ)).toNat = 0 := by omega
  have hpos : 0 < 10 ^ pointBits := Nat.pow_pos (by decide)
  rw [ofDecimal, hdown, hup, Nat.pow_zero, Nat.mul_one, exactDigits, Nat.mul_assoc,
    five_pow_mul_two_pow]
  exact nearestDouble_self h hpos

/-- The decimals of `count` digits that may stand for a number: the closest one, and its two
neighbours. Ten to a power is one digit. -/
def decimalsOfLength (exact count : ℕ) : List (ℕ × ℤ) :=
  let dropped := (Nat.toDigits 10 exact).length - count
  let unit := 10 ^ dropped
  let exponent : ℤ := dropped - pointBits
  [roundHalfEven exact unit, exact / unit, exact / unit + 1].map fun digits =>
    if digits = 10 ^ count then (1, exponent + count) else (digits, exponent)

/-- The shortest digits with an exponent that read back as the number. All digits of the number
are the last that are tried. -/
def shortestDecimal (units : ℕ) : ℕ × ℤ :=
  let exact := exactDigits units
  let tried := (List.range (Nat.toDigits 10 exact).length).flatMap fun i =>
    decimalsOfLength exact (i + 1)
  (tried.find? fun decimal => (ofDecimal decimal.1 decimal.2).map (·.1) = some units).getD
    (exact, -pointBits)

/-- **Reading the shortest decimal gives the number back.** -/
theorem ofDecimal_shortestDecimal {units : ℕ} (h : IsDouble units) :
    ofDecimal (shortestDecimal units).1 (shortestDecimal units).2 = some ⟨units, h⟩ := by
  rw [shortestDecimal]
  cases hfind : List.find? (fun decimal => (ofDecimal decimal.1 decimal.2).map (·.1) = some units)
      ((List.range (Nat.toDigits 10 (exactDigits units)).length).flatMap fun i =>
        decimalsOfLength (exactDigits units) (i + 1)) with
  | none => exact ofDecimal_exactDigits h
  | some decimal =>
    have hback := List.find?_some hfind
    rw [decide_eq_true_eq, Option.map_eq_some_iff] at hback
    obtain ⟨read, hread, hunits⟩ := hback
    rw [Option.getD_some, hread]
    congr 1
    exact Subtype.ext hunits

theorem shortestDecimal_pos {units : ℕ} (h : IsDouble units) (hpos : 0 < units) :
    0 < (shortestDecimal units).1 := by
  by_contra hzero
  have hback := ofDecimal_shortestDecimal h
  rw [Nat.eq_zero_of_not_pos hzero, ofDecimal_zero] at hback
  have hunits := congrArg Subtype.val (Option.some.inj hback)
  dsimp only at hunits
  omega

end Json
