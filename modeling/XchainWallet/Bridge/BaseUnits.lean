import XchainWallet.Flows.NativePayment

/-!
# Amounts in base units

A page may name the amount of a SEND as `amountRaw`, a count of base units. The bridge turns it into
the decimal text that the flow signs, at the divisibility of the asset as the balances of the
spending address have it, and refuses where it has none. Of a native coin the payment is then exactly
the count that the page named.
-/

namespace XchainWallet.Bridge

open Decimal NativePayment

/-! ### The conversion -/

/-- `Number(divisibility)`, where it is a whole number from 0 to 30. -/
def saneScale (divisibility : JsNumber) : Option ℕ :=
  divisibility.bind fun d => if d.den = 1 ∧ 0 ≤ d.num ∧ d.num ≤ 30 then some d.num.toNat else none

/-- `padStart(width, '0')`. -/
def padStart (text : List Char) (width : ℕ) : List Char :=
  List.replicate (width - text.length) '0' ++ text

/-- The digits with the point before the last `d` of them, without zeros at the end. -/
def decimalText (digits : List Char) (d : ℕ) : String :=
  if d = 0 then (digitsValue digits).repr
  else
    let padded := padStart digits (d + 1)
    let whole := (digitsValue (padded.take (padded.length - d))).repr
    let frac := dropZeros (padded.drop (padded.length - d))
    if frac = [] then whole else String.ofList (whole.toList ++ '.' :: frac)

/-- The decimal text of a count of base units. -/
def decimalFromBaseUnits (raw : String) (divisibility : JsNumber) : Option String :=
  if ¬Digits (jsTrim raw.toList) then none
  else (saneScale divisibility).map (decimalText (jsTrim raw.toList))

theorem isJsSpace_of_isDigit {c : Char} (h : c.isDigit = true) : isJsSpace c = false := by
  simp only [Char.isDigit, ge_iff_le, Bool.and_eq_true, decide_eq_true_eq] at h
  have hlow : 48 ≤ c.toNat := h.1
  have hhigh : c.toNat ≤ 57 := h.2
  rw [isJsSpace, decide_eq_false_iff_not]
  rintro (hmem | hmem)
  · have hspaces : ∀ n ∈ [0x09, 0x0A, 0x0B, 0x0C, 0x0D, 0x20, 0xA0, 0x1680, 0x2028, 0x2029, 0x202F,
        0x205F, 0x3000, 0xFEFF], n < 48 ∨ 57 < n := by decide
    have hspace := hspaces c.toNat hmem
    omega
  · omega

theorem plainDecimal_whole {whole : List Char} (h : Digits whole) :
    plainDecimal whole = some (whole, []) := by
  have hspan : (whole ++ []).span Char.isDigit = (whole, []) := span_digits h.2 (by simp)
  rw [List.append_nil] at hspan
  simp only [plainDecimal, hspan, h.1, if_false]

theorem plainDecimal_point {whole frac : List Char} (h : whole.all Char.isDigit) (hfrac : Digits frac) :
    plainDecimal (whole ++ '.' :: frac) = some (whole, frac) := by
  have hspan : (whole ++ '.' :: frac).span Char.isDigit = (whole, '.' :: frac) :=
    span_digits h (by simp)
  simp only [plainDecimal, hspan, hfrac, if_true]

theorem amountOf_of_chars {text : String} {whole frac : List Char}
    (hchars : ∀ c ∈ text.toList, c.isDigit = true ∨ c = '.')
    (h : plainDecimal text.toList = some (whole, frac)) :
    amountOf text = some ((digitsValue (whole ++ frac) : ℚ) / 10 ^ frac.length) := by
  have htrim : jsTrim text.toList = text.toList := by
    refine jsTrim_eq_self _ fun c hc => ?_
    obtain hdigit | rfl := hchars c hc
    · exact isJsSpace_of_isDigit hdigit
    · decide
  rw [amountOf, htrim, h, Option.map_some]

theorem amountOf_repr (n : ℕ) : amountOf n.repr = some (n : ℚ) := by
  have hrepr := digits_repr n
  rw [amountOf_of_chars (fun c hc => .inl (List.all_eq_true.mp hrepr.2 c hc))
    (plainDecimal_whole hrepr), List.append_nil, digitsValue_repr]
  simp

theorem digitsValue_repr_append (digits more : List Char) :
    digitsValue ((digitsValue digits).repr.toList ++ more) = digitsValue (digits ++ more) := by
  rw [digitsValue_append, digitsValue_append, digitsValue_repr]

/-- The text names the digits over the power of ten. -/
theorem amountOf_decimalText {digits : List Char} (h : Digits digits) (d : ℕ) :
    amountOf (decimalText digits d) = some ((digitsValue digits : ℚ) / 10 ^ d) := by
  rw [decimalText]
  split
  · rename_i hzero
    rw [amountOf_repr, hzero, pow_zero, div_one]
  · have hpadded : (padStart digits (d + 1)).all Char.isDigit := by
      rw [padStart, List.all_append, h.2, Bool.and_true, List.all_replicate]
      simp [Char.isDigit]
    have hlength : d < (padStart digits (d + 1)).length := by
      rw [padStart, List.length_append, List.length_replicate]
      omega
    have hvalue : digitsValue (padStart digits (d + 1)) = digitsValue digits :=
      digitsValue_zeros_append _ _
    -- The digits before the point, and those behind it.
    set padded := padStart digits (d + 1)
    set whole := padded.take (padded.length - d)
    set frac := padded.drop (padded.length - d)
    have hjoin : whole ++ frac = padded := List.take_append_drop _ _
    have hfraclen : frac.length = d := by
      rw [List.length_drop]
      omega
    have hfrac : (dropZeros frac).all Char.isDigit := by
      rw [List.all_eq_true] at hpadded ⊢
      intro c hc
      obtain ⟨n, hn⟩ := dropZeros_append frac
      have hmem : c ∈ frac := by
        rw [hn]
        exact List.mem_append_left _ hc
      exact hpadded c (List.mem_of_mem_drop hmem)
    have hsum : ((digitsValue ((digitsValue whole).repr.toList ++ dropZeros frac) : ℕ) : ℚ) /
        10 ^ (dropZeros frac).length = (digitsValue digits : ℚ) / 10 ^ d := by
      rw [digitsValue_repr_append, fraction_dropZeros, hjoin, hfraclen, hvalue]
    have hwhole := digits_repr (digitsValue whole)
    simp only
    split
    · rename_i hnil
      rw [hnil, List.append_nil, digitsValue_repr, List.length_nil, pow_zero, div_one] at hsum
      rw [amountOf_repr, hsum]
    · rename_i hne
      have htext : (String.ofList ((digitsValue whole).repr.toList ++ '.' :: dropZeros frac)).toList =
          (digitsValue whole).repr.toList ++ '.' :: dropZeros frac := String.toList_ofList
      have hplain := plainDecimal_point hwhole.2 ⟨hne, hfrac⟩
      rw [← htext] at hplain
      rw [amountOf_of_chars ?_ hplain, hsum]
      intro c hc
      rw [htext, List.mem_append, List.mem_cons] at hc
      obtain hc | rfl | hc := hc
      · exact .inl (List.all_eq_true.mp hwhole.2 c hc)
      · exact .inr rfl
      · exact .inl (List.all_eq_true.mp hfrac c hc)

/-- **The text names the count over the power of ten.** -/
theorem amountOf_decimalFromBaseUnits {raw text : String} {divisibility : JsNumber}
    (h : decimalFromBaseUnits raw divisibility = some text) :
    ∃ d, saneScale divisibility = some d ∧
      amountOf text = some ((digitsValue (jsTrim raw.toList) : ℚ) / 10 ^ d) := by
  unfold decimalFromBaseUnits at h
  split at h
  · exact absurd h.symm (Option.some_ne_none _)
  rename_i hdigits
  obtain ⟨d, hd, rfl⟩ := Option.map_eq_some_iff.mp h
  exact ⟨d, hd, amountOf_decimalText (not_not.mp hdigits) d⟩

/-- **A count of base units of the native coin is paid as it is.** -/
theorem satsFromDecimal_decimalFromBaseUnits {raw text : String}
    (h : decimalFromBaseUnits raw (some 8) = some text) :
    satsFromDecimal text = some (digitsValue (jsTrim raw.toList)) := by
  obtain ⟨d, hd, hamount⟩ := amountOf_decimalFromBaseUnits h
  have hscale : saneScale (some 8) = some 8 := by decide
  obtain rfl : 8 = d := Option.some.inj (hscale.symm.trans hd)
  have hcancel : (digitsValue (jsTrim raw.toList) : ℚ) / 10 ^ 8 * 10 ^ NATIVE_DECIMALS =
      digitsValue (jsTrim raw.toList) := div_mul_cancel₀ _ (by norm_num)
  rw [satsFromDecimal_eq, hamount, Option.map_some, hcancel, Nat.floor_natCast]
/-! ### The payment of a native send -/

/-- **A native send is paid once, at its amount in base units rounded down.** The payment is added
unless the caller's list has it; an amount without a base unit, or that is no plain decimal, adds
nothing, and then the send keeps its action. Adding the payment twice is adding it once, and a count
of base units that the bridge converted is paid as that count. -/
theorem withNativePaymentOutput_pays {ρ : Type} (data : ActionData) (coin : Option String)
    (destination : String) (opts : EncoderOpts ρ) (h : NativeSend data.params coin destination) :
    (∀ q, amountOf data.params.amount = some q → 0 < ⌊q * 10 ^ NATIVE_DECIMALS⌋₊ →
      let payment : ShownOutput := ⟨destination, ⌊q * 10 ^ NATIVE_DECIMALS⌋₊.repr⟩
      let request := withNativePaymentOutput data.params coin opts
      request.outputs = opts.outputs ++ (if payment ∈ opts.outputs then [] else [payment]) ∧
        request.outputs.count payment = max 1 (opts.outputs.count payment) ∧
        request.others = opts.others) ∧
    (∀ q whole frac, amountOf data.params.amount = some q →
      plainDecimal (jsTrim data.params.amount.toList) = some (whole, frac) →
      frac.length ≤ NATIVE_DECIMALS →
      (⌊q * 10 ^ NATIVE_DECIMALS⌋₊ : ℚ) = q * 10 ^ NATIVE_DECIMALS) ∧
    ((∀ q, amountOf data.params.amount = some q → ⌊q * 10 ^ NATIVE_DECIMALS⌋₊ = 0) →
      withNativePaymentOutput data.params coin opts = opts ∧
        isBareNativePayment data coin = false) ∧
    withNativePaymentOutput data.params coin (withNativePaymentOutput data.params coin opts) =
      withNativePaymentOutput data.params coin opts ∧
    ∀ raw, decimalFromBaseUnits raw (some 8) = some data.params.amount →
      (amountOf data.params.amount).map (fun q => ⌊q * 10 ^ NATIVE_DECIMALS⌋₊) =
        some (digitsValue (jsTrim raw.toList)) := by
  refine ⟨?_, ?_, ?_, withNativePaymentOutput_idem _ _ _, ?_⟩
  · intro q hq hpos payment request
    have hpays : nativePaymentOutput data.params coin = some payment := by
      rw [nativePaymentOutput_eq h, hq, Option.map_some, Option.bind_some, if_neg (by omega)]
    by_cases hmem : payment ∈ opts.outputs
    · have hrequest : request = opts := withNativePaymentOutput_of_mem hpays hmem
      have hcount := List.count_pos_iff.mpr hmem
      rw [hrequest, if_pos hmem, List.append_nil]
      exact ⟨rfl, by omega, rfl⟩
    · have hrequest : request = { opts with customOutputs := some (opts.outputs ++ [payment]) } :=
        withNativePaymentOutput_of_notMem hpays hmem
      have houtputs : request.outputs = opts.outputs ++ [payment] := by rw [hrequest]; rfl
      have hcount := List.count_eq_zero_of_not_mem hmem
      rw [if_neg hmem, houtputs, List.count_append, List.count_singleton_self, hcount]
      exact ⟨rfl, rfl, by rw [hrequest]⟩
  · intro q whole frac hq hplain hshort
    refine floor_eq_of_plainDecimal hq fun whole' frac' hplain' => ?_
    obtain ⟨-, rfl⟩ := Prod.mk.inj (Option.some.inj (hplain.symm.trans hplain'))
    exact hshort
  · intro hzero
    have hnone : nativePaymentOutput data.params coin = none := by
      rw [nativePaymentOutput_eq h]
      cases hq : amountOf data.params.amount with
      | none => rfl
      | some q => rw [Option.map_some, Option.bind_some, if_pos (hzero q hq)]
    refine ⟨withNativePaymentOutput_of_none hnone opts, ?_⟩
    rw [Bool.eq_false_iff]
    intro hbare
    have hsome := isSome_of_isBareNativePayment hbare
    rw [hnone] at hsome
    exact absurd hsome Bool.false_ne_true
  · intro raw hraw
    rw [← satsFromDecimal_eq]
    exact satsFromDecimal_decimalFromBaseUnits hraw

/-- A payment of one and a half bitcoin, without other outputs. -/
private def bitcoinSend (amount : String) : SendParams :=
  { tick := some "btc", amount := amount, destination := some " bc1qrecipient ", memo := none }

private theorem nativeSend_bitcoinSend (amount : String) :
    NativeSend (bitcoinSend amount) (some "bitcoin") "bc1qrecipient" :=
  ⟨⟨"bitcoin", "btc", rfl, rfl, by decide⟩, " bc1qrecipient ", rfl, by decide⟩

theorem withNativePaymentOutput_pays_bitcoin :
    (withNativePaymentOutput (bitcoinSend "1.5") (some "bitcoin")
      (⟨none, ()⟩ : EncoderOpts Unit)).outputs = [⟨"bc1qrecipient", "150000000"⟩] := by
  have hamount : amountOf "1.5" = some (3 / 2) := by decide +kernel
  have hfloor : ⌊(3 / 2 : ℚ) * 10 ^ NATIVE_DECIMALS⌋₊ = 150000000 := by
    rw [NATIVE_DECIMALS, show (3 / 2 : ℚ) * 10 ^ 8 = ((150000000 : ℕ) : ℚ) by norm_num, Nat.floor_natCast]
  obtain ⟨hpaid, -⟩ := withNativePaymentOutput_pays ⟨"SEND", bitcoinSend "1.5", false⟩ (some "bitcoin")
    "bc1qrecipient" (⟨none, ()⟩ : EncoderOpts Unit) (nativeSend_bitcoinSend "1.5")
  obtain ⟨houtputs, -⟩ := hpaid (3 / 2) hamount (by rw [hfloor]; decide)
  rw [houtputs, hfloor]
  decide

/-- An amount below a base unit is neither refused nor paid. -/
theorem not_withNativePaymentOutput_pays :
    ¬ ∀ (params : SendParams) (coin : Option String) (destination : String) (opts : EncoderOpts Unit)
        (q : ℚ), NativeSend params coin destination → amountOf params.amount = some q →
      ∃ sats : ℕ, (sats : ℚ) = q * 10 ^ NATIVE_DECIMALS ∧
        (withNativePaymentOutput params coin opts).outputs.count ⟨destination, sats.repr⟩ = 1 := by
  intro hall
  have hamount : amountOf "0.000000001" = some (1 / 1000000000) := by decide +kernel
  obtain ⟨sats, hsats, hcount⟩ := hall (bitcoinSend "0.000000001") (some "bitcoin") "bc1qrecipient"
    ⟨none, ()⟩ _ (nativeSend_bitcoinSend _) hamount
  have hnothing : (withNativePaymentOutput (bitcoinSend "0.000000001") (some "bitcoin")
      (⟨none, ()⟩ : EncoderOpts Unit)).outputs = [] := by decide
  rw [hnothing, List.count_nil] at hcount
  exact absurd hcount.symm one_ne_zero

end XchainWallet.Bridge
