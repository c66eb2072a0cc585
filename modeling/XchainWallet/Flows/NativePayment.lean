import XchainWallet.Decimal.Truncate
import XchainWallet.Js.Text

/-!
# The payment of a native-coin send

A SEND of a chain's own coin is a payment: the action moves no value, so the wallet adds an output
that pays the recipient. `withNativePaymentOutput` derives it from the decimal AMOUNT at eight digits
and adds it unless the caller's list has it. An amount that is no payment (zero, below a base unit,
or no plain decimal) adds nothing, and then the send is not bare: its action is kept.

Fields of the request are read as the code reads them: through `String`, with `none` for a value
that is falsy or missing.
-/

namespace XchainWallet.NativePayment

open Decimal

/-! ### Base units -/

/-- `^(\d*)(?:\.(\d+))?$` with a digit in it: the digits before and behind the point. -/
def plainDecimal (text : List Char) : Option (List Char × List Char) :=
  match text.span Char.isDigit with
  | (whole, []) => if whole = [] then none else some (whole, [])
  | (whole, '.' :: frac) => if Digits frac then some (whole, frac) else none
  | (_, _ :: _) => none

/-- The digits that the native scale keeps. -/
def NATIVE_DECIMALS : ℕ := 8

/-- The base units of a decimal text, digits behind the eighth cut off. -/
def satsFromDecimal (raw : String) : Option ℕ :=
  (plainDecimal (jsTrim raw.toList)).map fun (whole, frac) =>
    digitsValue whole * 10 ^ NATIVE_DECIMALS + digitsValue (cut frac NATIVE_DECIMALS)

/-- `satsStringFromDecimal`. -/
def satsStringFromDecimal (raw : String) : Option String := (satsFromDecimal raw).map Nat.repr

/-- The number that a decimal text names, where it is a plain one. -/
def amountOf (raw : String) : Option ℚ :=
  (plainDecimal (jsTrim raw.toList)).map fun (whole, frac) =>
    digitsValue (whole ++ frac) / 10 ^ frac.length

theorem all_digits_of_plainDecimal {text whole frac : List Char}
    (h : plainDecimal text = some (whole, frac)) : frac.all Char.isDigit := by
  unfold plainDecimal at h
  split at h
  · split at h
    · exact absurd h.symm (Option.some_ne_none _)
    · obtain ⟨rfl, rfl⟩ := Prod.mk.inj (Option.some.inj h)
      rfl
  · split at h
    · rename_i hdigits
      obtain ⟨rfl, rfl⟩ := Prod.mk.inj (Option.some.inj h)
      exact hdigits.2
    · exact absurd h.symm (Option.some_ne_none _)
  · exact absurd h.symm (Option.some_ne_none _)

/-- **The base units are the amount times `10 ^ 8`, rounded down.** -/
theorem satsFromDecimal_eq (raw : String) :
    satsFromDecimal raw = (amountOf raw).map fun q => ⌊q * 10 ^ NATIVE_DECIMALS⌋₊ := by
  rw [satsFromDecimal, amountOf, Option.map_map]
  cases hplain : plainDecimal (jsTrim raw.toList) with
  | none => rfl
  | some parts =>
    obtain ⟨whole, frac⟩ := parts
    have hcut := digitsValue_cut whole (all_digits_of_plainDecimal hplain) NATIVE_DECIMALS
    have hwhole : digitsValue (whole ++ cut frac NATIVE_DECIMALS) =
        digitsValue whole * 10 ^ NATIVE_DECIMALS + digitsValue (cut frac NATIVE_DECIMALS) := by
      rw [digitsValue_append, length_cut, Nat.mul_comm]
    have hfloor : ⌊(digitsValue (whole ++ frac) / 10 ^ frac.length * 10 ^ NATIVE_DECIMALS : ℚ)⌋₊ =
        digitsValue (whole ++ frac) * 10 ^ NATIVE_DECIMALS / 10 ^ frac.length := by
      have hquotient : (digitsValue (whole ++ frac) / 10 ^ frac.length * 10 ^ NATIVE_DECIMALS : ℚ) =
          ((digitsValue (whole ++ frac) * 10 ^ NATIVE_DECIMALS : ℕ) : ℚ) /
            ((10 ^ frac.length : ℕ) : ℚ) := by
        push_cast
        ring
      rw [hquotient, Nat.floor_div_eq_div]
    rw [Option.map_some, Option.map_some, Function.comp_apply, hfloor, ← hcut, hwhole]

/-- An amount of at most eight digits behind the point is not rounded. -/
theorem floor_eq_of_plainDecimal {raw : String} {q : ℚ} (h : amountOf raw = some q)
    (hshort : ∀ whole frac, plainDecimal (jsTrim raw.toList) = some (whole, frac) →
      frac.length ≤ NATIVE_DECIMALS) :
    (⌊q * 10 ^ NATIVE_DECIMALS⌋₊ : ℚ) = q * 10 ^ NATIVE_DECIMALS := by
  obtain ⟨⟨whole, frac⟩, hplain, rfl⟩ := Option.map_eq_some_iff.mp h
  have hle := hshort whole frac hplain
  have hpow : (10 ^ NATIVE_DECIMALS : ℚ) = 10 ^ (NATIVE_DECIMALS - frac.length) * 10 ^ frac.length := by
    rw [← pow_add, Nat.sub_add_cancel hle]
  have hwhole : (digitsValue (whole ++ frac) / 10 ^ frac.length * 10 ^ NATIVE_DECIMALS : ℚ) =
      ((digitsValue (whole ++ frac) * 10 ^ (NATIVE_DECIMALS - frac.length) : ℕ) : ℚ) := by
    rw [hpow]
    push_cast
    field_simp
  simp only [hwhole, Nat.floor_natCast]

/-! ### The request -/

/-- A chain's ticker, of the coin that its descriptor names. -/
def tickerForCoin (coin : String) : String :=
  let key := String.ofList (coin.toList.flatMap jsLower)
  if key = "bitcoin" then "BTC"
  else if key = "litecoin" then "LTC"
  else if key = "dogecoin" then "DOGE"
  else String.ofList (key.toList.flatMap jsUpper)

/-- `String(text).trim().toUpperCase()`. -/
def trimmedUpper (text : String) : String := String.ofList ((jsTrim text.toList).flatMap jsUpper)

/-- The parameters of a SEND: `tick` and `destination` are `none` where they are falsy, `memo` where
it is undefined or null, and `amount` is what `String` shows. -/
structure SendParams where
  tick : Option String
  amount : String
  destination : Option String
  memo : Option String

structure ActionData where
  action : String
  params : SendParams
  hasRest : Bool

/-- An output as `String` shows its address and its value. -/
structure ShownOutput where
  address : String
  value : String
deriving DecidableEq

/-- The options of the encoder: the outputs the caller supplies, where they are a list, and all
others. -/
structure EncoderOpts (ρ : Type) where
  customOutputs : Option (List ShownOutput)
  others : ρ

variable {ρ : Type}

/-- The coin of the chain is `none` where the descriptor names none. -/
def nativePaymentOutput (params : SendParams) (coin : Option String) : Option ShownOutput := do
  let coin ← coin
  let tick ← params.tick
  let destination ← params.destination
  if trimmedUpper tick ≠ tickerForCoin coin then none
  else
    let value ← satsStringFromDecimal params.amount
    if value = "0" then none
    else some ⟨String.ofList (jsTrim destination.toList), value⟩

def isBareNativePayment (data : ActionData) (coin : Option String) : Bool :=
  match coin with
  | none => false
  | some coin =>
    if String.ofList (data.action.toList.flatMap jsUpper) ≠ "SEND" then false
    else if data.hasRest then false
    else if tickerForCoin coin = "" then false
    else if trimmedUpper (data.params.tick.getD "") ≠ tickerForCoin coin then false
    else if data.params.memo.any (· ≠ "") then false
    else (nativePaymentOutput data.params (some coin)).isSome

def hasOutput (customOutputs : Option (List ShownOutput)) (output : ShownOutput) : Bool :=
  customOutputs.any (output ∈ ·)

def withNativePaymentOutput (params : SendParams) (coin : Option String) (encoderOpts : EncoderOpts ρ) :
    EncoderOpts ρ :=
  match nativePaymentOutput params coin with
  | none => encoderOpts
  | some output =>
    if hasOutput encoderOpts.customOutputs output then encoderOpts
    else { encoderOpts with customOutputs := some (encoderOpts.customOutputs.getD [] ++ [output]) }

def hasNativePaymentOutput (params : SendParams) (coin : Option String) (encoderOpts : EncoderOpts ρ) :
    Bool :=
  (nativePaymentOutput params coin).any (hasOutput encoderOpts.customOutputs)

/-! ### What is paid -/

/-- The SEND is of the chain's own coin, to a recipient. -/
structure NativeSend (params : SendParams) (coin : Option String) (destination : String) : Prop where
  ticker : ∃ c tick, coin = some c ∧ params.tick = some tick ∧ trimmedUpper tick = tickerForCoin c
  recipient : ∃ d, params.destination = some d ∧ destination = String.ofList (jsTrim d.toList)

theorem repr_eq_zero {n : ℕ} : n.repr = "0" ↔ n = 0 := by
  constructor
  · intro h
    have hvalue : digitsValue n.repr.toList = digitsValue (Nat.repr 0).toList := by
      rw [h]
      rfl
    rwa [digitsValue_repr, digitsValue_repr] at hvalue
  · rintro rfl
    rfl

variable {coin : Option String}

variable {params : SendParams}

/-- Of a native send, the payment is there exactly when the amount has a base unit. -/
theorem nativePaymentOutput_eq {destination : String} (h : NativeSend params coin destination) :
    nativePaymentOutput params coin =
      ((amountOf params.amount).map fun q => ⌊q * 10 ^ NATIVE_DECIMALS⌋₊).bind fun sats =>
        if sats = 0 then none else some ⟨destination, sats.repr⟩ := by
  obtain ⟨⟨c, tick, rfl, htick, hticker⟩, d, hd, rfl⟩ := h
  rw [← satsFromDecimal_eq]
  simp only [nativePaymentOutput, htick, hd, hticker, satsStringFromDecimal, Option.bind_eq_bind,
    Option.bind_some, ne_eq, not_true_eq_false, if_false]
  cases satsFromDecimal params.amount with
  | none => rfl
  | some sats => simp [repr_eq_zero]

/-- The outputs of a request. -/
def EncoderOpts.outputs (opts : EncoderOpts ρ) : List ShownOutput := opts.customOutputs.getD []

theorem hasOutput_iff {opts : EncoderOpts ρ} {output : ShownOutput} :
    hasOutput opts.customOutputs output = true ↔ output ∈ opts.outputs := by
  rw [EncoderOpts.outputs]
  cases opts.customOutputs <;> simp [hasOutput]

theorem withNativePaymentOutput_of_none (h : nativePaymentOutput params coin = none)
    (opts : EncoderOpts ρ) :
    withNativePaymentOutput params coin opts = opts := by
  rw [withNativePaymentOutput, h]

theorem withNativePaymentOutput_of_mem {output : ShownOutput}
    (h : nativePaymentOutput params coin = some output) {opts : EncoderOpts ρ}
    (hmem : output ∈ opts.outputs) : withNativePaymentOutput params coin opts = opts := by
  simp only [withNativePaymentOutput, h, hasOutput_iff.mpr hmem, if_true]

theorem withNativePaymentOutput_of_notMem {output : ShownOutput}
    (h : nativePaymentOutput params coin = some output) {opts : EncoderOpts ρ}
    (hmem : output ∉ opts.outputs) :
    withNativePaymentOutput params coin opts =
      { opts with customOutputs := some (opts.outputs ++ [output]) } := by
  have hno : ¬ hasOutput opts.customOutputs output = true := fun hhas => hmem (hasOutput_iff.mp hhas)
  simp only [withNativePaymentOutput, h, hno, EncoderOpts.outputs]
  rfl

/-- Adding the payment again adds nothing. -/
theorem withNativePaymentOutput_idem (params : SendParams) (coin : Option String)
    (opts : EncoderOpts ρ) :
    withNativePaymentOutput params coin (withNativePaymentOutput params coin opts) =
      withNativePaymentOutput params coin opts := by
  cases hpays : nativePaymentOutput params coin with
  | none => rw [withNativePaymentOutput_of_none hpays, withNativePaymentOutput_of_none hpays]
  | some output =>
    by_cases hmem : output ∈ opts.outputs
    · rw [withNativePaymentOutput_of_mem hpays hmem, withNativePaymentOutput_of_mem hpays hmem]
    · rw [withNativePaymentOutput_of_notMem hpays hmem]
      exact withNativePaymentOutput_of_mem hpays (by simp [EncoderOpts.outputs])

/-- What is bare has a payment. -/
theorem isSome_of_isBareNativePayment {data : ActionData} (h : isBareNativePayment data coin = true) : (nativePaymentOutput data.params coin).isSome := by
  unfold isBareNativePayment at h
  split at h
  · exact absurd h Bool.false_ne_true
  · split_ifs at h
    exact h

end XchainWallet.NativePayment
