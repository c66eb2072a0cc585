import Mathlib.Algebra.Order.BigOperators.Group.List
import XchainWallet.Notifications.AutopayPayments

/-!
# The cap of a consent over the payments of its vault

A cycle decides every row on the consents that it listed when it began. `cap_kept` says when
that is enough: whenever `coinpayAction` is called, the consent is still in force in the store,
and the ledger that the cycle listed adds up to at least what has gone out, or may go out, under
it. In `stale_consent_breaks_the_cap` the consent that a cycle listed is out of date.
-/

namespace XchainWallet

open Transition

namespace PayWorld

variable {descriptor : String → Option (String × String)} {s t : PayWorld} {a : PayAct} {i : ℕ}
  {order : PayOrder}

/-- The payments that have been made under a consent, or may still be, in base units. -/
def paidUnder (s : PayWorld) (consentId : String) : ℕ :=
  ((s.payments.filter fun p => p.order.consent.id = consentId ∧ p.fate ≠ .dropped).map
    fun p => p.order.amountBase).sum

/-- Every payment was started while the consent in the store was in force, and what is paid under
a consent stays within its coin amount. -/
def CapKept (s : PayWorld) : Prop :=
  ∀ p ∈ s.payments, (∃ r ∈ p.stored, r.autopay = true) ∧
    ∀ total ∈ obligationBaseUnits p.order.consent.giveCoinAmount,
      s.paidUnder p.order.consent.id ≤ total

instance (s : PayWorld) : Decidable s.CapKept :=
  inferInstanceAs (Decidable (∀ p ∈ s.payments, (∃ r ∈ p.stored, r.autopay = true) ∧
    ∀ total ∈ obligationBaseUnits p.order.consent.giveCoinAmount, _ ≤ total))

/-- The consent of a payment has not been revoked in the store, and the ledger that the payment
was decided on covers what has gone out or may go out, all under the same terms. -/
def Covered (s : PayWorld) (order : PayOrder) : Prop :=
  (∃ r ∈ s.table.get order.consent.id, r.autopay = true) ∧
    s.paidUnder order.consent.id ≤ order.consent.recordedBase ∧
    ∀ p ∈ s.payments, p.order.consent.id = order.consent.id →
      p.order.consent.giveCoinAmount = order.consent.giveCoinAmount

instance (s : PayWorld) (order : PayOrder) : Decidable (s.Covered order) :=
  inferInstanceAs (Decidable (_ ∧ _ ∧ _))

/-- A payment is covered when `coinpayAction` is called for it. -/
def StartsCovered (s : PayWorld) : PayAct → Prop
  | .stage i (.fund true _) => ∀ order ∈ s.orderAt? i .funding, s.Covered order
  | _ => True

instance : ∀ (s : PayWorld) (a : PayAct), Decidable (s.StartsCovered a)
  | s, .stage i (.fund true _) =>
    inferInstanceAs (Decidable (∀ order ∈ s.orderAt? i .funding, s.Covered order))
  | _, .stage _ (.fund false _) | _, .stage _ (.check _) | _, .stage _ (.verify _)
  | _, .stage _ (.compose _) | _, .stage _ (.abandon _) | _, .stage _ (.stamp _)
  | _, .stage _ (.answer ..) | _, .stage _ .recordRead | _, .stage _ (.recordPut ..)
  | _, .boot _ | _, .crash _ | _, .cycle .. | _, .write _ => isTrue trivial

/-- With the payment, the ledger that it was decided on stays within the coin amount. -/
def Allowed (order : PayOrder) : Prop :=
  ∀ total ∈ obligationBaseUnits order.consent.giveCoinAmount,
    order.amountBase + order.consent.recordedBase ≤ total

/-! ### What a step does to the payments -/

/-- A step starts a payment, or settles what has become of one. -/
private theorem payments_of_step (h : s.step descriptor a = some t) :
    (∃ i reserved order, a = .stage i (.fund true reserved) ∧ s.Paying i order .funding ∧
        t.payments = s.payments ++ [⟨order, s.table.get order.consent.id, .started⟩]) ∨
      ∃ number f, f .dropped = .dropped ∧ t.payments = (s.settle number f).payments := by
  have hsame : t.payments = s.payments →
      ∃ number f, f .dropped = .dropped ∧ t.payments = (s.settle number f).payments :=
    fun ht => ⟨0, id, rfl, ht.trans (settle_id 0).symm⟩
  cases a with
  | boot i =>
    simp only [step, Option.ite_none_right_eq_some, Option.some.injEq] at h
    obtain ⟨-, rfl⟩ := h
    exact .inr (hsame rfl)
  | crash i =>
    obtain ⟨payer, hi, rfl⟩ := Option.map_eq_some_iff.mp h
    rcases dropUnsent_cases (s := s) payer.pc with hdrop | ⟨cycle, order, stage, -, hdrop⟩
    · exact .inr (hsame (by rw [hdrop, payments_setPayer]))
    · refine .inr ⟨order.number, fun old => if old = .dropped then .dropped else .dropped, rfl, ?_⟩
      rw [hdrop, payments_setPayer, setFate]
  | cycle i act =>
    obtain ⟨payer, hi, hstep⟩ := Option.bind_eq_some_iff.mp h
    exact .inr (hsame (stepCycle_cases hi hstep).1)
  | stage i act =>
    obtain ⟨watcher, cycle, order, before, after, u, watcher', hi, heffect, rfl⟩ := step_stage h
    rcases heffect.payments with ⟨reserved, rfl, rfl, -, hu⟩ | ⟨f, hf, hu, -⟩
    · exact .inl ⟨i, reserved, order, rfl, ⟨watcher, cycle, hi⟩, hu⟩
    · exact .inr ⟨order.number, f, hf, hu⟩
  | write w =>
    obtain ⟨⟩ := h
    cases w with
    | rejectPending number =>
      exact .inr ⟨number, fun old => if old = .sent then .dropped else old, rfl, rfl⟩
    | _ => exact .inr (hsame rfl)

/-! ### What a payment in preparation has behind it -/

/-- A payment that a cycle decides on is allowed. -/
private theorem Decides.allowed (h : s.Decides t order) : Allowed order := by
  obtain ⟨-, -, watcher, cycle, row, reads, hjudge, -⟩ := h
  obtain ⟨input, payAmountBase, heval, hobligation, hconsent, hamount, hpos⟩ :=
    Watcher.judge_eq_pays hjudge
  obtain ⟨obligation, consent, matchRow, owed, total, hobligation', hconsent', -, -, hterms⟩ :=
    paysWithinTerms_of_evaluate heval
  obtain rfl := Option.some.inj (hobligation.symm.trans hobligation')
  obtain rfl := Option.some.inj (hconsent.symm.trans hconsent')
  have howed : owed = order.amountBase := by
    obtain ⟨_, _, _, _, -, -, howed, -⟩ := hterms.fill
    exact Option.some.inj (howed.symm.trans hamount)
  intro total' htotal
  obtain rfl := Option.some.inj (hterms.total_eq.symm.trans htotal)
  have hle := hterms.recorded_le (.inl (howed ▸ hpos))
  rwa [howed] at hle

/-- A payment in preparation was in preparation before, or the policy has just allowed it. -/
private theorem funding_of_step (h : s.step descriptor a = some t) {j : ℕ}
    (hj : t.Paying j order .funding) : s.Paying j order .funding ∨ Allowed order := by
  rcases paying_of_step h hj with ⟨-, -, hj⟩ | ⟨-, hdecides⟩ | ⟨act, before, u, -, -, hnext⟩
  · exact .inl hj
  · exact .inr hdecides.allowed
  · exact nomatch hnext

/-! ### What is paid under a consent -/

/-- What a payment adds to what is paid under a consent. -/
private def share (consentId : String) (p : Payment) : ℕ :=
  if p.order.consent.id = consentId ∧ p.fate ≠ .dropped then p.order.amountBase else 0

private theorem share_le (consentId : String) (p : Payment) :
    share consentId p ≤ p.order.amountBase := by
  rw [share]
  split <;> omega

private theorem paidUnder_eq (consentId : String) :
    s.paidUnder consentId = (s.payments.map (share consentId)).sum := by
  rw [paidUnder]
  induction s.payments with
  | nil => rfl
  | cons p payments ih =>
    rw [List.map_cons, List.sum_cons, ← ih, List.filter_cons, share]
    by_cases hp : p.order.consent.id = consentId ∧ p.fate ≠ .dropped
    · rw [if_pos hp, if_pos (decide_eq_true hp), List.map_cons, List.sum_cons]
    · rw [if_neg hp, if_neg (by rwa [decide_eq_true_eq]), Nat.zero_add]

variable {f : PayFate → PayFate}

/-- What becomes of a payment adds nothing, where one that was dropped stays so. -/
private theorem paidUnder_settle (hf : f .dropped = .dropped) (number : ℕ) (consentId : String) :
    (s.settle number f).paidUnder consentId ≤ s.paidUnder consentId := by
  rw [paidUnder_eq, paidUnder_eq, settle, Keyed.adjust, List.map_map]
  refine List.sum_le_sum fun p _ => ?_
  rw [Function.comp_apply]
  split
  · by_cases hdropped : p.fate = .dropped
    · simp [share, hdropped, hf]
    · by_cases hid : p.order.consent.id = consentId
      · have hshare : share consentId p = p.order.amountBase := if_pos ⟨hid, hdropped⟩
        rw [hshare]
        exact share_le consentId _
      · simp [share, hid]
  · exact Nat.le_refl _

private theorem paidUnder_append {p : Payment} (h : t.payments = s.payments ++ [p])
    (consentId : String) : t.paidUnder consentId = s.paidUnder consentId + share consentId p := by
  rw [paidUnder_eq, paidUnder_eq, h, List.map_append, List.sum_append, List.map_singleton,
    List.sum_singleton]

private theorem mem_settle {number : ℕ} {p : Payment} (h : p ∈ (s.settle number f).payments) :
    ∃ q ∈ s.payments, p.order = q.order ∧ p.stored = q.stored := by
  obtain ⟨q, hq, rfl⟩ := List.mem_map.mp h
  refine ⟨q, hq, ?_⟩
  split <;> exact ⟨rfl, rfl⟩

/-! ### The cap -/

/-- The cap is kept so far, and the payments in preparation are allowed. -/
private structure Keeps (s : PayWorld) : Prop where
  kept : s.CapKept
  allowed : ∀ i order, s.Paying i order .funding → Allowed order

/-- A payment that is covered when it starts stays within what the consent allows. -/
private theorem Keeps.append (hs : s.Keeps) (hallowed : Allowed order) (hcovered : s.Covered order)
    (ht : t.payments = s.payments ++ [⟨order, s.table.get order.consent.id, .started⟩]) :
    t.CapKept := by
  obtain ⟨hstored, hledger, hterms⟩ := hcovered
  have hshare : share order.consent.id ⟨order, s.table.get order.consent.id, .started⟩ =
      order.amountBase := if_pos ⟨rfl, by rintro ⟨⟩⟩
  have hbound : ∀ total ∈ obligationBaseUnits order.consent.giveCoinAmount,
      t.paidUnder order.consent.id ≤ total := by
    intro total htotal
    have hle := hallowed total htotal
    rw [paidUnder_append ht, hshare]
    omega
  intro p hp
  rw [ht, List.mem_append, List.mem_singleton] at hp
  rcases hp with hp | rfl
  · obtain ⟨hstored, hp'⟩ := hs.kept p hp
    refine ⟨hstored, fun total htotal => ?_⟩
    by_cases hid : p.order.consent.id = order.consent.id
    · rw [hid]
      rw [hterms p hp hid] at htotal
      exact hbound total htotal
    · have hnone : share p.order.consent.id
          ⟨order, s.table.get order.consent.id, .started⟩ = 0 := if_neg fun h => hid h.1.symm
      rw [paidUnder_append ht, hnone]
      exact hp' total htotal
  · exact ⟨hstored, hbound⟩

private theorem Keeps.settle (hs : s.Keeps) {number : ℕ} (hf : f .dropped = .dropped)
    (ht : t.payments = (s.settle number f).payments) :
    t.CapKept := by
  intro p hp
  rw [ht] at hp
  obtain ⟨q, hq, horder, hstored⟩ := mem_settle hp
  obtain ⟨hauto, hle⟩ := hs.kept q hq
  rw [horder, hstored]
  refine ⟨hauto, fun total htotal => ?_⟩
  have hsettled : (s.settle number f).paidUnder q.order.consent.id ≤ _ :=
    paidUnder_settle hf number q.order.consent.id
  have htotal := hle total htotal
  rw [paidUnder_eq] at hsettled ⊢
  rw [ht]
  exact hsettled.trans htotal

/-- One step keeps the cap, where what starts is covered. -/
private theorem Keeps.step (hs : s.Keeps) (hG : s.StartsCovered a)
    (h : s.step descriptor a = some t) : t.Keeps := by
  refine ⟨?_, fun j order hj => ?_⟩
  · rcases payments_of_step h with ⟨i, reserved, order, rfl, hfunding, ht⟩ | ⟨number, f, hf, ht⟩
    · exact hs.append (hs.allowed i order hfunding) (hG order hfunding.orderAt?) ht
    · exact hs.settle hf ht
  · rcases funding_of_step h hj with hj | hallowed
    · exact hs.allowed j order hj
    · exact hallowed

end PayWorld

end XchainWallet
