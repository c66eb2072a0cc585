import Mathlib.Data.Nat.Cast.Order.Field
import XchainWallet.Market.AutopayPolicy
import XchainWallet.Transition.Run

/-!
# What is paid stays within the consented terms

`PaysWithinTerms` collects what is known of an obligation that gets through the whole chain of
refusals: the row is still payable, the match is deep enough and far enough from its deadline,
the debt is the coin leg of the match, and neither the price nor the sum of the payments exceeds
what was consented to. A ledger that is within the total stays there however often the decision
is taken and its payment recorded (`AutopayOrder.Within.run`).
-/

namespace XchainWallet

open Decimal Transition

/-! ### The ledger -/

namespace AutopayPayment

/-- The base units that an entry of the ledger stands for. -/
def amount (p : AutopayPayment) : ℕ :=
  match p.coinAmountBase with
  | .text digits => if Digits digits.toList then digitsValue digits.toList else 0
  | .other _ => 0

theorem amount_of_base? {p : AutopayPayment} {n : ℕ} (h : p.base? = some n) : p.amount = n := by
  simp only [base?, Option.bind_eq_bind, Option.bind_eq_some_iff] at h
  obtain ⟨-, -, digits, htext, hvalue⟩ := h
  rw [JsField.text?_eq_some] at htext
  split at hvalue
  · next hdigits =>
    rw [amount, htext]
    exact (if_pos hdigits.1).trans (Option.some.inj hvalue)
  · cases hvalue

end AutopayPayment

/-- The base units that the ledger of a record adds up to. -/
def AutopayOrder.recordedBase (record : AutopayOrder) : ℕ :=
  ((record.payments.getD []).map AutopayPayment.amount).sum

private theorem sum_amount_of_mapM {payments : List AutopayPayment} {amounts : List ℕ}
    (h : payments.mapM AutopayPayment.base? = some amounts) :
    (payments.map AutopayPayment.amount).sum = amounts.sum := by
  induction payments generalizing amounts with
  | nil =>
    obtain ⟨⟩ := h
    rfl
  | cons p payments ih =>
    simp only [List.mapM_cons, Option.bind_eq_bind, Option.bind_eq_some_iff, Option.pure_def,
      Option.some.injEq] at h
    obtain ⟨n, hn, rest, hrest, rfl⟩ := h
    rw [List.map_cons, List.sum_cons, List.sum_cons, AutopayPayment.amount_of_base? hn, ih hrest]

/-- Where the ledger is well formed, what counts as paid is its sum. -/
theorem recordedBase_of_paidBase {consent : AutopayOrder} {paid : ℕ}
    (h : paidBase consent = some paid) : consent.recordedBase = paid := by
  simp only [paidBase, Option.bind_eq_some_iff, Option.map_eq_some_iff] at h
  obtain ⟨payments, hpayments, amounts, hamounts, rfl⟩ := h
  rw [AutopayOrder.recordedBase, hpayments]
  exact sum_amount_of_mapM hamounts

theorem AutopayOrder.recordedBase_appendPayment (record : AutopayOrder)
    (payment : AutopayPayment) :
    (record.appendPayment payment).recordedBase = record.recordedBase + payment.amount := by
  simp [appendPayment, recordedBase]

/-- The text of a number is an amount that stands for it. -/
theorem amount_toString (p : AutopayPayment) (n : ℕ)
    (h : p.coinAmountBase = .text (toString n)) : p.amount = n := by
  rw [AutopayPayment.amount, h]
  exact (if_pos (digits_repr n)).trans (digitsValue_repr n)

/-! ### The terms -/

/-- What holds of an obligation that is paid. `owed` is what is paid, and `total` what the
consent allows in all, both in base units. -/
structure PaysWithinTerms (input : PolicyInput) (obligation : CoinpayObligation)
    (consent : AutopayOrder) (matchRow : OrderMatchRow) (owed total : ℕ) : Prop where
  pending : obligation.coinpayStatus = .text "pending_coinpay"
  consented : consent.autopay = true
  unpaid : consent.hasPaid obligation.actionIndex = false
  /-- The deadline is further away than the cutoff. -/
  deadline : ∃ deadline, obligation.expiration = some deadline ∧
    cutoffSeconds input.alreadyAttempted < ⌊deadline - input.nowSeconds⌋
  /-- The block of the match is deep enough under the tip. -/
  depth : ∃ tipHeight blockIndex, input.tipHeight = some tipHeight ∧
    obligation.blockIndex = some blockIndex ∧
    confirmDepthForChain consent.chainId ≤ tipHeight - blockIndex + 1
  isMatch : matchRow.actionIndex = obligation.actionIndex ∧
    matchRow.settlementType = .text "coinpay" ∧ matchRow.invalid = false
  total_eq : obligationBaseUnits consent.giveCoinAmount = some total
  /-- The debt is the coin leg of the match, and its price per token is at most the consented
  one, one base unit apart. -/
  fill : ∃ orderActionIndex oriented tokenFill getTotal,
    consent.orderActionIndex = some orderActionIndex ∧
    orientMatch matchRow orderActionIndex = some oriented ∧
    obligationBaseUnits obligation.coinAmount = some owed ∧
    obligationBaseUnits oriented.coinFill = some owed ∧
    oriented.tokenFill.plain? = some tokenFill ∧ consent.getAmount.plain? = some getTotal ∧
    0 < getTotal.value ∧ (owed : ℚ) ≤ total * (tokenFill.value / getTotal.value) + 1
  /-- The ledger is well formed, and what is left of the total covers the debt. -/
  budget : ∃ paid, paidBase consent = some paid ∧ owed ≤ total - paid

/-- With the debt, the payments stay within the total, unless the debt is zero and they had gone
beyond it before. -/
theorem PaysWithinTerms.recorded_le {input : PolicyInput} {obligation : CoinpayObligation}
    {consent : AutopayOrder} {matchRow : OrderMatchRow} {owed total : ℕ}
    (h : PaysWithinTerms input obligation consent matchRow owed total)
    (hledger : 0 < owed ∨ consent.recordedBase ≤ total) :
    owed + consent.recordedBase ≤ total := by
  obtain ⟨paid, hpaid, hle⟩ := h.budget
  rw [recordedBase_of_paidBase hpaid] at hledger ⊢
  omega

private theorem cutoff_lt {attempted : Bool} {left : ℤ}
    (hretry : ¬(attempted = true ∧ left ≤ retryCutoffSeconds))
    (harming : ¬(¬attempted = true ∧ left ≤ armingCutoffSeconds)) :
    cutoffSeconds attempted < left := by
  cases attempted with
  | true => exact Int.not_le.mp fun hle => hretry ⟨rfl, hle⟩
  | false => exact Int.not_le.mp fun hle => harming ⟨nofun, hle⟩

private theorem toCommonScale_eq_some {a b : JsField} {scaled : ℕ × ℕ}
    (h : toCommonScale a b = some scaled) :
    ∃ pa pb, a.plain? = some pa ∧ b.plain? = some pb ∧
      scaled = (pa.scaled (max pa.frac.length pb.frac.length),
        pb.scaled (max pa.frac.length pb.frac.length)) := by
  simp only [toCommonScale, Option.bind_eq_bind, Option.bind_eq_some_iff, Option.map_eq_some_iff,
    JsField.text?_eq_some, Option.pure_def, Option.some.injEq] at h
  obtain ⟨-, ⟨sa, rfl, rfl⟩, pa, hpa, -, ⟨sb, rfl, rfl⟩, pb, hpb, rfl⟩ := h
  exact ⟨pa, pb, hpa, hpb, rfl⟩

/-- The price bound in exact terms. -/
private theorem price_le {pa pb : Plain} {total owed : ℕ} {width : ℕ}
    (ha : pa.frac.length ≤ width) (hb : pb.frac.length ≤ width)
    (hprice : owed ≤ total * pa.scaled width / pb.scaled width + 1) :
    (owed : ℚ) ≤ total * (pa.value / pb.value) + 1 := by
  have hcast : (owed : ℚ) ≤ ((total * pa.scaled width / pb.scaled width : ℕ) : ℚ) + 1 := by
    exact_mod_cast hprice
  calc (owed : ℚ) ≤ ((total * pa.scaled width / pb.scaled width : ℕ) : ℚ) + 1 := hcast
    _ ≤ ((total * pa.scaled width : ℕ) : ℚ) / (pb.scaled width : ℕ) + 1 :=
        add_le_add_left Nat.cast_div_le 1
    _ = total * (pa.value / pb.value) + 1 := by
        rw [Nat.cast_mul, mul_div_assoc, Plain.scaled_div_scaled ha hb]

private theorem value_pos {p : Plain} {width : ℕ} (hlen : p.frac.length ≤ width)
    (hne : p.scaled width ≠ 0) : 0 < p.value := by
  refine lt_of_le_of_ne p.value_nonneg fun hzero => hne ?_
  have hscaled := Plain.scaled_eq hlen
  rw [← hzero, zero_mul] at hscaled
  exact_mod_cast hscaled

/-- What gets through the chain of refusals is within the terms. -/
theorem paysWithinTerms_of_evaluate {input : PolicyInput} {payAmountBase : String}
    (h : evaluateObligation input = .ok payAmountBase) :
    ∃ obligation consent matchRow owed total, input.obligation = some obligation ∧
      input.consent = some consent ∧ input.matchRow = some matchRow ∧
      payAmountBase = toString owed ∧
      PaysWithinTerms input obligation consent matchRow owed total := by
  simp only [evaluateObligation, Decision.bind_eq_ok, Decision.refuseIf_eq_ok,
    Decision.orRefuse_eq_ok] at h
  obtain ⟨obligation, hobligation, consent, hconsent, -, hpending, -, hconsented, -, -, -, -, -,
    hunpaid, -, hlive, left, hleft, -, hretry, -, harming, block, hblock, tip, htip, -, hdepth,
    matchRow, hmatchRow, -, hindex, -, hsettlement, -, hinvalid, order, horder, oriented,
    horiented, owed, howed, fill, hfill, -, hsame, total, htotal, scaled, hscaled, -, hnonzero, -,
    hprice, remaining, hremaining, -, hcovers, hpay⟩ := h
  have howedFill : owed = fill := not_not.mp hsame
  obtain rfl := howedFill
  obtain ⟨deadline, hexpiration, hfloor, -⟩ := secondsLeft_of_classifyObligation hleft
  obtain ⟨pa, pb, hpa, hpb, rfl⟩ := toCommonScale_eq_some hscaled
  have hwa : pa.frac.length ≤ max pa.frac.length pb.frac.length := le_max_left ..
  have hwb : pb.frac.length ≤ max pa.frac.length pb.frac.length := le_max_right ..
  simp only [remainingGiveBase, Option.bind_eq_bind, Option.bind_eq_some_iff, htotal,
    Option.some.injEq, exists_eq_left', Option.pure_def] at hremaining
  obtain ⟨paid, hpaid, hleftover⟩ := hremaining
  refine ⟨obligation, consent, matchRow, owed, total, hobligation, hconsent, hmatchRow,
    (Except.ok.inj hpay).symm, ?_⟩
  exact {
    pending := not_not.mp hpending
    consented := not_not.mp hconsented
    unpaid := Bool.eq_false_iff.mpr hunpaid
    deadline := ⟨deadline, hexpiration, hfloor ▸ cutoff_lt hretry harming⟩
    depth := ⟨tip, block, (Option.filter_eq_some_iff.mp htip).1,
      (Option.filter_eq_some_iff.mp hblock).1, not_lt.mp hdepth⟩
    isMatch := ⟨not_not.mp hindex, not_not.mp hsettlement, Bool.eq_false_iff.mpr hinvalid⟩
    total_eq := htotal
    fill := ⟨order, oriented, pa, pb, (Option.filter_eq_some_iff.mp horder).1, horiented, howed,
      hfill, hpa, hpb, value_pos hwb hnonzero, price_le hwa hwb (not_lt.mp hprice)⟩
    budget := ⟨paid, hpaid, by omega⟩ }

/-! ### Sequences of decisions -/

/-- One turn: what the decision sees of an obligation, and the payment that is recorded if it is
paid. The consent of the input is the record that the turn finds. -/
structure AutopayTurn where
  input : PolicyInput
  txid : String
  paidAt : String

/-- Decide on an obligation under the record, and record the payment if there is one. -/
def AutopayOrder.evaluateThenRecord (consent : AutopayOrder) (turn : AutopayTurn) :
    Option AutopayOrder :=
  match evaluateObligation { turn.input with consent := some consent } with
  | .error _ => some consent
  | .ok payAmountBase => consent.recordPayment {
      orderMatchActionIndex := .text ((turn.input.obligation.map (·.actionIndex)).getD "")
      coinAmountBase := .text payAmountBase
      txid := turn.txid
      paidAt := turn.paidAt }

/-- The ledger of the record is within its total. -/
def AutopayOrder.Within (record : AutopayOrder) : Prop :=
  ∀ total, obligationBaseUnits record.giveCoinAmount = some total → record.recordedBase ≤ total

namespace AutopayOrder

variable {consent consent' : AutopayOrder}

/-- One turn keeps the ledger within the total. -/
theorem Within.step {turn : AutopayTurn} (h : consent.Within)
    (hstep : consent.evaluateThenRecord turn = some consent') : consent'.Within := by
  rw [evaluateThenRecord] at hstep
  split at hstep
  · obtain ⟨⟩ := hstep
    exact h
  · next payAmountBase hpay =>
    obtain ⟨obligation, _, matchRow, owed, total, -, hconsent, -, rfl, hterms⟩ :=
      paysWithinTerms_of_evaluate hpay
    obtain ⟨⟩ := hconsent
    rw [recordPayment] at hstep
    split at hstep
    · cases hstep
    · obtain ⟨⟩ := hstep
      intro total' htotal'
      have htotals : total' = total :=
        Option.some.inj (htotal'.symm.trans hterms.total_eq)
      rw [recordedBase_appendPayment, amount_toString _ owed rfl, htotals, Nat.add_comm]
      exact hterms.recorded_le (.inr (h total hterms.total_eq))

/-- **The cap holds over a run.** However often the decision is taken and its payment recorded,
a ledger that began within its total stays within it. -/
theorem Within.run {turns : List AutopayTurn} (h : consent.Within)
    (hrun : run evaluateThenRecord consent turns = some consent') :
    consent'.Within :=
  run_invariant (fun _ _ _ hw hs => hw.step hs) h hrun

end AutopayOrder

/-! ### The policy is sound -/

/-- **What is paid is within the terms, and so is the sum of what is paid.** A decision to pay is
taken only on an obligation that is still payable, on a match deep enough and far enough from its
deadline, for the coin leg of the match and at no more than the consented price. With it the
payments stay within the total wherever the debt is positive or they were within it before, and
so any sequence of decisions and records keeps a ledger within the total. -/
theorem pays_within_terms :
    (∀ input payAmountBase, evaluateObligation input = .ok payAmountBase →
      ∃ obligation consent matchRow owed total, input.obligation = some obligation ∧
        input.consent = some consent ∧ input.matchRow = some matchRow ∧
        payAmountBase = toString owed ∧
        PaysWithinTerms input obligation consent matchRow owed total ∧
        (0 < owed ∨ consent.recordedBase ≤ total → owed + consent.recordedBase ≤ total)) ∧
      ∀ consent turns consent', AutopayOrder.Within consent →
        run AutopayOrder.evaluateThenRecord consent turns = some consent' →
        AutopayOrder.Within consent' := by
  refine ⟨fun input payAmountBase hpay => ?_, fun _ _ _ hw hrun => hw.run hrun⟩
  obtain ⟨obligation, consent, matchRow, owed, total, hobligation, hconsent, hmatchRow, howed,
    hterms⟩ := paysWithinTerms_of_evaluate hpay
  exact ⟨obligation, consent, matchRow, owed, total, hobligation, hconsent, hmatchRow, howed,
    hterms, hterms.recorded_le⟩

/-- An order that gives one coin for a hundred tokens, and has paid `paid` base units of it. -/
def sampleConsent (paid : String) : AutopayOrder where
  id := "btc::ab"
  walletId := "w1"
  chainId := "btc"
  sourceAddress := "a1"
  txid := "ab"
  orderActionIndex := some "1558"
  giveCoinAmount := .text "1"
  getAmount := .text "100"
  autopay := true
  payments := some [⟨.text "1400", .text paid, "cd", "2026-01-01T00:00:00.000Z"⟩]

/-- A match that the order triggered, its coin leg as given, two blocks deep and two hours before
its deadline. -/
def sampleInput (paid coinFill : String) : PolicyInput where
  obligation := some ⟨.text "pending_coinpay", "1559", some 1700007200, some 100, .text coinFill⟩
  consent := some (sampleConsent paid)
  matchRow := some ⟨"1559", .text "coinpay", .text "valid", some "1557", some "1558",
    .text coinFill, .text "50"⟩
  tipHeight := some 101
  nowSeconds := 1700000000
  alreadyAttempted := false

/-- Half of the coin is paid for half of the tokens, and recorded. -/
theorem half_of_the_coin_is_paid :
    (evaluateObligation (sampleInput "50000000" "0.5") = .ok "50000000" ∧
      ∃ obligation consent matchRow owed total,
        (sampleInput "50000000" "0.5").obligation = some obligation ∧
        (sampleInput "50000000" "0.5").consent = some consent ∧
        (sampleInput "50000000" "0.5").matchRow = some matchRow ∧
        "50000000" = toString owed ∧
        PaysWithinTerms (sampleInput "50000000" "0.5") obligation consent matchRow owed total ∧
        (0 < owed ∨ consent.recordedBase ≤ total → owed + consent.recordedBase ≤ total)) ∧
      ∃ consent', run AutopayOrder.evaluateThenRecord (sampleConsent "50000000")
        [⟨sampleInput "50000000" "0.5", "ef", "2026-01-02T00:00:00.000Z"⟩] = some consent' ∧
        AutopayOrder.Within consent' := by
  have hpay : evaluateObligation (sampleInput "50000000" "0.5") = .ok "50000000" := by
    decide +kernel
  have hwithin : AutopayOrder.Within (sampleConsent "50000000") := by
    intro total htotal
    have : obligationBaseUnits (sampleConsent "50000000").giveCoinAmount = some 100000000 := by
      decide
    obtain rfl := Option.some.inj (htotal.symm.trans this)
    decide
  have hsome : (run AutopayOrder.evaluateThenRecord (sampleConsent "50000000")
      [⟨sampleInput "50000000" "0.5", "ef", "2026-01-02T00:00:00.000Z"⟩]).isSome := by
    decide +kernel
  obtain ⟨consent', hrun⟩ := Option.isSome_iff_exists.mp hsome
  exact ⟨⟨hpay, pays_within_terms.1 _ _ hpay⟩, consent', hrun,
    pays_within_terms.2 _ _ _ hwithin hrun⟩

/-- A debt of zero is paid although the ledger is beyond the total. -/
theorem zero_debt_is_paid_beyond_the_total :
    evaluateObligation (sampleInput "200000000" "0") = .ok (toString 0) ∧
      obligationBaseUnits (sampleConsent "200000000").giveCoinAmount = some 100000000 ∧
      ¬0 + (sampleConsent "200000000").recordedBase ≤ 100000000 := by
  decide +kernel

end XchainWallet
