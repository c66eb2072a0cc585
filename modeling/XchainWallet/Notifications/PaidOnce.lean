import XchainWallet.Notifications.AutopayPayments

/-!
# A match is paid once

Two payments of one match must not both be handed to submission, unless the first is known never
to have gone out. What stands against it is the re-check of `coinpayAction`, which finds the
record of the other payment. `paid_once` says when that is enough: the re-check reads the pending
transactions, no other payment of the match is between its own re-check and its broadcast, and
the records of what may have gone out are kept. `both_processes_pay` has two processes that
re-check before either has stamped its record.
-/

namespace XchainWallet

/-- The payment has passed its re-check, and may go out or have gone out. -/
def Payment.InFlight (p : Payment) : Prop := p.fate = .checked ∨ p.HandedOver

instance (p : Payment) : Decidable p.InFlight := inferInstanceAs (Decidable (_ ∨ _))

/-- The payment is one of the match of the order. -/
def Payment.OfMatch (p : Payment) (order : PayOrder) : Prop :=
  p.order.chainId = order.chainId ∧ p.order.matchIndex = order.matchIndex

instance (p : Payment) (order : PayOrder) : Decidable (p.OfMatch order) :=
  inferInstanceAs (Decidable (_ ∧ _))

/-- The record tells a check for the same address that the payment may have gone out. -/
def Shows (tx : ActionTx) (order : PayOrder) : Prop :=
  tx.status ∈ attemptedStatuses ∧ pendingTxReferencesMatch tx order.matchIndex ∧
    (tx.fromAddress = "" ∨ tx.fromAddress = order.consent.sourceAddress)

instance (tx : ActionTx) (order : PayOrder) : Decidable (Shows tx order) :=
  inferInstanceAs (Decidable (_ ∧ _ ∧ _))

namespace PayWorld

variable {descriptor : String → Option (String × String)} {s t u : PayWorld} {a : PayAct}
  {i j : ℕ} {order : PayOrder} {stage before : PayStage}

/-- No two payments of one match are handed over. -/
def PaidOnce (s : PayWorld) : Prop :=
  s.payments.Pairwise fun p q => p.HandedOver → q.HandedOver → ¬p.OfMatch q.order

instance (s : PayWorld) : Decidable s.PaidOnce :=
  inferInstanceAs (Decidable (List.Pairwise _ _))

/-- The re-check of a payment reads the pending transactions, the index of the match is one that
a record can reference, no other payment of the match is between its re-check and its broadcast,
and what has gone out for the match came from the same address. The record of a payment that may
have gone out stays, and goes on showing it. -/
def PaysAlone (s : PayWorld) : PayAct → Prop
  | .stage i (.check fault) => ∀ order ∈ s.orderAt? i .checking,
      fault = false ∧ isIndex order.matchIndex ∧ ∀ p ∈ s.payments, p.OfMatch order →
        p.fate ≠ .checked ∧ p.fate ≠ .submitted ∧
          (p.fate = .sent → p.order.consent.sourceAddress = order.consent.sourceAddress)
  | .write (.putPending tx) => ∀ p ∈ s.payments, p.fate = .sent → recordId p.number = tx.id →
      Shows tx p.order
  | .write (.deletePending id) => ∀ p ∈ s.payments, p.HandedOver → recordId p.number ≠ id
  | _ => True

instance : ∀ (s : PayWorld) (a : PayAct), Decidable (s.PaysAlone a)
  | s, .stage i (.check fault) => inferInstanceAs (Decidable (∀ order ∈ s.orderAt? i .checking,
      fault = false ∧ isIndex order.matchIndex ∧ ∀ p ∈ s.payments, p.OfMatch order → _ ∧ _ ∧ _))
  | s, .write (.putPending _) => inferInstanceAs (Decidable (∀ p ∈ s.payments, _ → _ → _))
  | s, .write (.deletePending _) => inferInstanceAs (Decidable (∀ p ∈ s.payments, _ → _))
  | _, .stage _ (.fund ..) | _, .stage _ (.verify _) | _, .stage _ (.compose _)
  | _, .stage _ (.abandon _) | _, .stage _ (.stamp _) | _, .stage _ (.answer ..)
  | _, .stage _ .recordRead | _, .stage _ (.recordPut ..) | _, .boot _ | _, .crash _
  | _, .cycle .. | _, .write (.putConsent _) | _, .write (.deleteConsent _)
  | _, .write (.rejectPending _) => isTrue trivial

/-! ### Which payment is whose -/

/-- The payments have numbers of their own, and a process in a payment has one of them. -/
private structure Tracked (s : PayWorld) : Prop where
  distinct : Keyed.Distinct Payment.number s.payments
  below : ∀ p ∈ s.payments, p.number < s.nextNumber
  reserved : ∀ i order stage, s.Paying i order stage → order.number < s.nextNumber
  unstarted : ∀ i order, s.Paying i order .funding → ∀ p ∈ s.payments, p.number ≠ order.number
  started : ∀ i order stage, s.Paying i order stage → stage ≠ .funding →
    ∃ p ∈ s.payments, p.order = order ∧ ∀ fate ∈ stage.fate?, p.fate = fate
  apart : ∀ i j order order' stage stage', s.Paying i order stage → s.Paying j order' stage' →
    order.number = order'.number → i = j

private theorem Tracked.eq_of_number (hs : s.Tracked) {p q : Payment} (hp : p ∈ s.payments)
    (hq : q ∈ s.payments) (h : p.number = q.number) : p = q :=
  List.inj_on_of_nodup_map hs.distinct hp hq h

variable {number : ℕ}

/-- Something becomes of a payment, and each process is where it was or where that leads. -/
private theorem Tracked.settle (hs : s.Tracked) {f : PayFate → PayFate}
    (hpayments : t.payments = (s.settle number f).payments) (hnext : t.nextNumber = s.nextNumber)
    (hpaying : ∀ j order stage, t.Paying j order stage → ∃ before, s.Paying j order before ∧
      (stage = .funding ↔ before = .funding) ∧ ∀ old, (∀ fate ∈ before.fate?, old = fate) →
        ∀ fate ∈ stage.fate?, (if order.number = number then f old else old) = fate) :
    t.Tracked := by
  have hmem : ∀ {p}, p ∈ t.payments → ∃ q ∈ s.payments, p.number = q.number := by
    intro p hp
    rw [hpayments] at hp
    obtain ⟨q, hq, rfl⟩ := List.mem_map.mp hp
    refine ⟨q, hq, ?_⟩
    split <;> rfl
  have hnumbers : t.payments.map Payment.number = s.payments.map Payment.number := by
    rw [hpayments, PayWorld.settle, Keyed.adjust, List.map_map]
    refine List.map_congr_left fun p _ => ?_
    rw [Function.comp_apply]
    split <;> rfl
  constructor
  · rw [Keyed.Distinct, hnumbers]
    exact hs.distinct
  · intro p hp
    obtain ⟨q, hq, hnumber⟩ := hmem hp
    rw [hnumber, hnext]
    exact hs.below q hq
  · intro j order stage hj
    obtain ⟨before, hbefore, -⟩ := hpaying j order stage hj
    rw [hnext]
    exact hs.reserved j order before hbefore
  · intro j order hj p hp
    obtain ⟨before, hbefore, hfunding, -⟩ := hpaying j order .funding hj
    obtain rfl := hfunding.mp rfl
    obtain ⟨q, hq, hnumber⟩ := hmem hp
    rw [hnumber]
    exact hs.unstarted j order hbefore q hq
  · intro j order stage hj hstage
    obtain ⟨before, hbefore, hfunding, hfate⟩ := hpaying j order stage hj
    obtain ⟨p, hp, rfl, hold⟩ := hs.started j order before hbefore fun h => hstage (hfunding.mpr h)
    refine ⟨if p.number = number then { p with fate := f p.fate } else p, ?_, ?_, ?_⟩
    · rw [hpayments]
      exact List.mem_map.mpr ⟨p, hp, rfl⟩
    · split <;> rfl
    · intro fate hstage
      rw [← hfate p.fate hold fate hstage]
      split <;> rfl
  · intro j k order order' stage stage' hj hk
    obtain ⟨before, hbefore, -⟩ := hpaying j order stage hj
    obtain ⟨before', hbefore', -⟩ := hpaying k order' stage' hk
    exact hs.apart j k order order' before before' hbefore hbefore'

/-- Nothing becomes of a payment, and no process comes to one. -/
private theorem Tracked.same (hs : s.Tracked) (hpayments : t.payments = s.payments)
    (hnext : t.nextNumber = s.nextNumber)
    (hpaying : ∀ j order stage, t.Paying j order stage → s.Paying j order stage) : t.Tracked := by
  have hid : t.payments = (s.settle 0 id).payments := hpayments.trans (settle_id 0).symm
  refine hs.settle hid hnext fun j order stage hj => ?_
  refine ⟨stage, hpaying j order stage hj, Iff.rfl, fun old hold fate hfate => ?_⟩
  rw [← hold fate hfate]
  exact ite_self old

/-- A cycle decides on a payment, and gives it a number that no payment has. -/
private theorem Tracked.decides (hs : s.Tracked) (hpayments : t.payments = s.payments)
    (hdecides : s.Decides t order)
    (hpaying : ∀ j order' stage, t.Paying j order' stage →
      s.Paying j order' stage ∨ j = i ∧ order' = order ∧ stage = .funding) : t.Tracked := by
  obtain ⟨hnumber, hnext, -⟩ := hdecides
  constructor
  · rw [hpayments]
    exact hs.distinct
  · intro p hp
    rw [hpayments] at hp
    have hbelow := hs.below p hp
    omega
  · intro j order' stage hj
    rcases hpaying j order' stage hj with hj | ⟨-, rfl, -⟩
    · have hbelow := hs.reserved j order' stage hj
      omega
    · omega
  · intro j order' hj p hp
    rw [hpayments] at hp
    rcases hpaying j order' .funding hj with hj | ⟨-, rfl, -⟩
    · exact hs.unstarted j order' hj p hp
    · have hbelow := hs.below p hp
      omega
  · intro j order' stage hj hstage
    rcases hpaying j order' stage hj with hj | ⟨-, -, rfl⟩
    · rw [hpayments]
      exact hs.started j order' stage hj hstage
    · exact absurd rfl hstage
  · intro j k order' order'' stage stage' hj hk hsame
    rcases hpaying j order' stage hj with hj | ⟨rfl, rfl, -⟩ <;>
      rcases hpaying k order'' stage' hk with hk | ⟨rfl, rfl, -⟩
    · exact hs.apart j k order' order'' stage stage' hj hk hsame
    · have hbelow := hs.reserved j order' stage hj
      omega
    · have hbelow := hs.reserved k order'' stage' hk
      omega
    · rfl

/-- `coinpayAction` is called. -/
private theorem Tracked.funded (hs : s.Tracked) (hi : s.Paying i order .funding) {p : Payment}
    (hp : p.order = order) (hfate : p.fate = .started) (hpayments : t.payments = s.payments ++ [p])
    (hnext : t.nextNumber = s.nextNumber)
    (hpaying : ∀ j order' stage, t.Paying j order' stage →
      j ≠ i ∧ s.Paying j order' stage ∨ j = i ∧ order' = order ∧ stage = .checking) :
    t.Tracked := by
  have hfresh : ∀ q ∈ s.payments, q.number ≠ p.number := by
    intro q hq
    rw [Payment.number, Payment.number, hp]
    exact hs.unstarted i order hi q hq
  constructor
  · rw [hpayments]
    refine hs.distinct.append (List.nodup_singleton _) fun p' hp' q hq => ?_
    obtain rfl := List.mem_singleton.mp hp'
    exact hfresh q hq
  · intro q hq
    rw [hpayments, List.mem_append, List.mem_singleton] at hq
    rw [hnext]
    rcases hq with hq | rfl
    · exact hs.below q hq
    · rw [Payment.number, hp]
      exact hs.reserved i order .funding hi
  · intro j order' stage hj
    rw [hnext]
    rcases hpaying j order' stage hj with ⟨-, hj⟩ | ⟨-, rfl, -⟩
    · exact hs.reserved j order' stage hj
    · exact hs.reserved i order' .funding hi
  · intro j order' hj q hq
    rw [hpayments, List.mem_append, List.mem_singleton] at hq
    rcases hpaying j order' .funding hj with ⟨hij, hj⟩ | ⟨-, -, hstage⟩
    · rcases hq with hq | rfl
      · exact hs.unstarted j order' hj q hq
      · intro hsame
        rw [Payment.number, hp] at hsame
        exact hij (hs.apart j i order' order .funding .funding hj hi hsame.symm)
    · cases hstage
  · intro j order' stage hj hstage
    rw [hpayments]
    rcases hpaying j order' stage hj with ⟨-, hj⟩ | ⟨-, rfl, rfl⟩
    · obtain ⟨q, hq, hstarted⟩ := hs.started j order' stage hj hstage
      exact ⟨q, List.mem_append_left _ hq, hstarted⟩
    · refine ⟨p, List.mem_append_right _ (List.mem_singleton_self p), hp, ?_⟩
      rintro _ ⟨⟩
      exact hfate
  · intro j k order' order'' stage stage' hj hk hsame
    rcases hpaying j order' stage hj with ⟨-, hj⟩ | ⟨rfl, rfl, -⟩ <;>
      rcases hpaying k order'' stage' hk with ⟨-, hk⟩ | ⟨rfl, rfl, -⟩
    · exact hs.apart j k order' order'' stage stage' hj hk hsame
    · exact hs.apart j k order' order'' stage .funding hj hi hsame
    · exact hs.apart j k order' order'' .funding stage' hi hk hsame
    · rfl

/-- The numbers stay in order. -/
private theorem Tracked.step (hs : s.Tracked) (h : s.step descriptor a = some t) : t.Tracked := by
  cases a with
  | boot i =>
    simp only [PayWorld.step, Option.ite_none_right_eq_some, Option.some.injEq] at h
    obtain ⟨-, rfl⟩ := h
    refine hs.same rfl rfl fun j order stage hj => ?_
    rcases paying_update rfl hj with ⟨-, hj⟩ | ⟨-, _, _, heq⟩
    · exact hj
    · cases heq
  | crash i =>
    obtain ⟨payer, hi, rfl⟩ := Option.map_eq_some_iff.mp h
    rcases dropUnsent_cases (s := s) payer.pc with hdrop | ⟨cycle, order, stage, hpc, hdrop⟩
    · rw [hdrop]
      refine hs.same rfl rfl fun j order stage hj => ?_
      rcases paying_update rfl hj with ⟨-, hj⟩ | ⟨-, _, _, heq⟩
      · exact hj
      · cases heq
    · rw [hdrop]
      have hpaying : s.Paying i order stage := ⟨payer.watcher, cycle, by rw [hi, ← hpc]⟩
      have hu : (s.setFate order.number .dropped).payments =
        (s.settle order.number fun old => if old = .dropped then .dropped else .dropped).payments :=
        rfl
      refine hs.settle hu rfl fun j order' stage' hj => ?_
      rcases paying_update rfl hj with ⟨hij, hj⟩ | ⟨-, _, _, heq⟩
      · refine ⟨stage', hj, Iff.rfl, fun old hold fate hfate => ?_⟩
        rw [if_neg fun hsame => hij (hs.apart j i order' order stage' stage hj hpaying hsame)]
        exact hold fate hfate
      · cases heq
  | cycle i act =>
    obtain ⟨payer, hi, hstep⟩ := Option.bind_eq_some_iff.mp h
    obtain ⟨hpayments, -, payer', hpayers, hpayer'⟩ := stepCycle_cases hi hstep
    rcases hpayer' with ⟨hout, hnext⟩ | ⟨cycle, order, hpc, hdecides⟩
    · refine hs.same hpayments hnext fun j order stage hj => ?_
      rcases paying_update hpayers hj with ⟨-, hj⟩ | ⟨-, watcher, cycle, heq⟩
      · exact hj
      · obtain ⟨⟩ := heq
        exact absurd rfl (hout cycle order stage)
    · refine hs.decides (i := i) hpayments hdecides fun j order' stage hj => ?_
      rcases paying_update hpayers hj with ⟨-, hj⟩ | ⟨rfl, watcher, cycle', heq⟩
      · exact .inl hj
      · obtain ⟨⟩ := heq
        injection hpc with _ horder hstage
        exact .inr ⟨rfl, horder, hstage⟩
  | stage i act =>
    obtain ⟨watcher, cycle, order, before, after, u, watcher', hi, heffect, rfl⟩ := step_stage h
    have hpaying : s.Paying i order before := ⟨watcher, cycle, hi⟩
    rcases heffect.payments with ⟨reserved, rfl, rfl, rfl, hu⟩ | ⟨f, -, hu, hends, hstage⟩
    · exact hs.funded hpaying rfl rfl hu heffect.nextNumber fun j order' stage hj => by
        rcases heffect.paying hj with hj | ⟨rfl, rfl, hafter⟩
        · exact .inl hj
        · exact .inr ⟨rfl, rfl, (Option.some.inj hafter).symm⟩
    · refine hs.settle hu heffect.nextNumber fun j order' stage hj => ?_
      rcases heffect.paying hj with ⟨hij, hj⟩ | ⟨rfl, rfl, rfl⟩
      · refine ⟨stage, hj, Iff.rfl, fun old hold fate hfate => ?_⟩
        rw [if_neg fun hsame => hij (hs.apart j i order' order stage before hj hpaying hsame)]
        exact hold fate hfate
      · obtain ⟨hfunding, hfate⟩ := hstage stage rfl
        refine ⟨before, hpaying, iff_of_false hfunding (Option.some_ne_none _ <| hends ·), ?_⟩
        intro old hold
        rw [if_pos rfl]
        exact hfate old hold
  | write w =>
    obtain ⟨⟩ := h
    cases w with
    | rejectPending number =>
      have hu : (s.reject number).payments =
        (s.settle number fun old => if old = .sent then .dropped else old).payments := rfl
      refine hs.settle hu rfl fun j order stage hj => ⟨stage, hj, Iff.rfl, ?_⟩
      intro old hold fate hfate
      obtain rfl := hold fate hfate
      -- what has been sent is at no stage that the invariant speaks of
      have hsent : old ≠ .sent := by
        rintro rfl
        cases stage <;> cases hfate
      rw [if_neg hsent, ite_self]
    | _ => exact hs.same rfl rfl fun j order stage hj => hj

/-! ### The records in the vault -/

private theorem recordId_injective {m n : ℕ} (h : recordId m = recordId n) : m = n := by
  have hvalue := congrArg (fun id : String => Decimal.digitsValue id.toList) h
  rwa [recordId, recordId, Nat.toString_eq_repr, Nat.toString_eq_repr, Decimal.digitsValue_repr,
    Decimal.digitsValue_repr] at hvalue

/-- The pending record of a payment. -/
private def recordOf (s : PayWorld) (number : ℕ) : Option ActionTx :=
  Keyed.find ActionTx.txId (recordId number) s.pendingTxs

private theorem recordOf_writePending_of_ne {record : ActionTx} {status : TxStatus}
    (h : recordId number ≠ record.id) :
    (s.writePending record status).recordOf number = s.recordOf number := by
  unfold writePending
  split
  · rfl
  · next stored hstored =>
    exact Keyed.find_upsert_of_ne (by exact h) _

private theorem recordOf_writePending {record stored : ActionTx} {status : TxStatus}
    (hid : record.id = recordId number) (h : s.recordOf number = some stored) :
    (s.writePending record status).recordOf number =
      some { record with status := if stored.status = .indexed then .indexed else status } := by
  have hfind : Keyed.find ActionTx.txId record.id s.pendingTxs = some stored := hid ▸ h
  let status' := if stored.status = .indexed then TxStatus.indexed else status
  have hwrite : (s.writePending record status).pendingTxs =
      Keyed.upsert ActionTx.txId { record with status := status' } s.pendingTxs := by
    rw [writePending, hfind]
  rw [recordOf, hwrite, ← hid]
  exact Keyed.find_upsert_self (α := ActionTx) (κ := String) { record with status := status' } _

/-- The record of an auto-payment shows it, under every status that counts as an attempt. -/
private theorem shows_newRecord {coin networkKind : String} {status : TxStatus}
    (hindex : isIndex order.matchIndex) (hstatus : status ∈ attemptedStatuses) :
    Shows { newRecord coin networkKind order with status } order :=
  ⟨hstatus, references_autoPaidSummary rfl hindex rfl, .inr rfl⟩

/-- A payment that is signed has its record in the vault, and one that may have gone out has one
there that shows it. -/
private structure Vaulted (s : PayWorld) : Prop where
  record : ∀ i order record, s.Paying i order (.signing record) ∨ s.Paying i order (.sending record) →
    ∃ coin networkKind, record = newRecord coin networkKind order
  present : ∀ i order record, s.Paying i order (.signing record) →
    ∃ tx, s.recordOf order.number = some tx
  shown : ∀ p ∈ s.payments, p.fate = .sent →
    ∃ tx, s.recordOf p.number = some tx ∧ Shows tx p.order

/-- What is past its re-check can be referenced, and is alone with its match. -/
private structure Alone (s : PayWorld) : Prop where
  index : ∀ p ∈ s.payments, p.InFlight → isIndex p.order.matchIndex
  alone : ∀ p ∈ s.payments, ∀ q ∈ s.payments, p.InFlight → q.InFlight → p.OfMatch q.order →
    p.number = q.number

/-- A step that is not one of a payment leaves the records as they are. -/
private theorem Vaulted.same (hs : s.Vaulted)
    (hrecords : ∀ number, t.recordOf number = s.recordOf number)
    (hpaying : ∀ j order stage, stage ≠ .funding → t.Paying j order stage → s.Paying j order stage)
    (hsent : ∀ p ∈ t.payments, p.fate = .sent → p ∈ s.payments) : t.Vaulted := by
  constructor
  · intro j order record hj
    exact hs.record j order record (hj.imp (hpaying j order _ (by simp)) (hpaying j order _ (by simp)))
  · intro j order record hj
    rw [hrecords]
    exact hs.present j order record (hpaying j order _ (by simp) hj)
  · intro p hp hfate
    rw [hrecords]
    exact hs.shown p (hsent p hp hfate) hfate

section

variable {act : StageAct} {after : Option PayStage}

/-- A step of a payment leaves the other payments alone. -/
private theorem StageEffect.mem_of_ne (h : StageEffect descriptor s order before act after u)
    {p : Payment} (hp : p ∈ u.payments) (hne : p.number ≠ order.number) : p ∈ s.payments := by
  rcases h.payments with ⟨-, -, -, -, hu⟩ | ⟨f, -, hu, -⟩
  · rw [hu, List.mem_append, List.mem_singleton] at hp
    rcases hp with hp | rfl
    · exact hp
    · exact absurd rfl hne
  · rw [hu] at hp
    obtain ⟨q, hq, rfl⟩ := List.mem_map.mp hp
    by_cases hnumber : q.number = order.number
    · rw [if_pos hnumber] at hne
      exact absurd hnumber hne
    · rwa [if_neg hnumber]

/-- A step of a payment leaves the records of the other payments alone. -/
private theorem StageEffect.recordOf_of_ne (h : StageEffect descriptor s order before act after u)
    (hs : s.Vaulted) (hi : s.Paying i order before) {number : ℕ} (hne : number ≠ order.number) :
    u.recordOf number = s.recordOf number := by
  have hid : ∀ {record : ActionTx}, before = .signing record ∨ before = .sending record →
      recordId number ≠ record.id := by
    intro record hbefore hsame
    have hrecord : ∃ coin networkKind, record = newRecord coin networkKind order := by
      rcases hbefore with rfl | rfl
      · exact hs.record i order record (.inl hi)
      · exact hs.record i order record (.inr hi)
    obtain ⟨coin, networkKind, rfl⟩ := hrecord
    exact hne (recordId_injective hsame)
  have hstamped : ∀ (fault : Bool) {record : ActionTx} (status : TxStatus),
      before = .signing record ∨ before = .sending record →
        (if fault then s else s.writePending record status).recordOf number =
          s.recordOf number := by
    intro fault record status hbefore
    split
    · rfl
    · exact recordOf_writePending_of_ne (hid hbefore)
  cases h with
  | composed h =>
    have hid : recordId number ≠ recordId order.number := fun h => hne (recordId_injective h)
    exact Keyed.find_upsert_of_ne (by exact hid) _
  | abandoned record fault => exact hstamped fault .failed (.inl rfl)
  | stamped record => exact hstamped false .broadcasting (.inl rfl)
  | accepted record fault => exact hstamped fault .broadcast (.inr rfl)
  | deferred record fault => exact hstamped fault .queued (.inr rfl)
  | rejected record fault => exact hstamped fault .failed (.inr rfl)
  | _ => rfl

/-- What is left to show of a step of a payment is about its own record. -/
private theorem Vaulted.acts {watcher : Watcher} {cycle : PollCycle} (hs : s.Vaulted)
    (htracked : s.Tracked) (hi : s.Paying i order before)
    (heffect : StageEffect descriptor s order before act after u)
    (hrecord : ∀ record, after = some (.signing record) ∨ after = some (.sending record) →
      ∃ coin networkKind, record = newRecord coin networkKind order)
    (hpresent : ∀ record, after = some (.signing record) → ∃ tx, u.recordOf order.number = some tx)
    (hshown : ∀ p ∈ u.payments, p.number = order.number → p.fate = .sent →
      ∃ tx, u.recordOf order.number = some tx ∧ Shows tx p.order) :
    (u.setPayer i (some ⟨watcher, resume cycle order after⟩)).Vaulted := by
  constructor
  · intro j order' record hj
    rcases hj with hj | hj <;>
      rcases heffect.paying hj with ⟨-, hj⟩ | ⟨-, rfl, hafter⟩
    · exact hs.record j order' record (.inl hj)
    · exact hrecord record (.inl hafter)
    · exact hs.record j order' record (.inr hj)
    · exact hrecord record (.inr hafter)
  · intro j order' record hj
    rcases heffect.paying hj with ⟨hij, hj⟩ | ⟨-, rfl, hafter⟩
    · have hne : order'.number ≠ order.number := fun hsame =>
        hij (htracked.apart j i order' order _ before hj hi hsame)
      have hsame := heffect.recordOf_of_ne hs hi hne
      obtain ⟨tx, htx⟩ := hs.present j order' record hj
      exact ⟨tx, hsame.trans htx⟩
    · exact hpresent record hafter
  · intro p hp hsent
    by_cases hnumber : p.number = order.number
    · rw [hnumber]
      exact hshown p hp hnumber hsent
    · have hsame := heffect.recordOf_of_ne hs hi hnumber
      obtain ⟨tx, htx, hshows⟩ := hs.shown p (heffect.mem_of_ne hp hnumber) hsent
      exact ⟨tx, hsame.trans htx, hshows⟩

end

/-- The payment of a process that is past the call of `coinpayAction`. -/
private theorem Tracked.fate_of_number (hs : s.Tracked) (hi : s.Paying i order stage)
    (hstage : stage ≠ .funding) {p : Payment} (hp : p ∈ s.payments)
    (hnumber : p.number = order.number) :
    p.order = order ∧ ∀ fate ∈ stage.fate?, p.fate = fate := by
  obtain ⟨q, hq, rfl, hfate⟩ := hs.started i order stage hi hstage
  obtain rfl := hs.eq_of_number hp hq hnumber
  exact ⟨rfl, hfate⟩

/-- What a step of a payment leaves in the vault. -/
private theorem Vaulted.stepStage {act : StageAct} (hs : s.Vaulted) (htracked : s.Tracked)
    (halone : s.Alone) (h : s.step descriptor (.stage i act) = some t) : t.Vaulted := by
  have httracked := htracked.step h
  obtain ⟨watcher, cycle, order, before, after, u, watcher', hi, heffect, rfl⟩ := step_stage h
  have hpaying : s.Paying i order before := ⟨watcher, cycle, hi⟩
  have hgoes : ∀ {stage}, after = some stage → stage ≠ .funding → ∀ p ∈ u.payments,
      p.number = order.number → p.order = order ∧ ∀ fate ∈ stage.fate?, p.fate = fate := by
    rintro stage rfl hstage p hp hnumber
    have hi' : (u.setPayer i (some ⟨watcher', .paying cycle order stage⟩)).Paying i order stage :=
      ⟨watcher', cycle, Function.update_self ..⟩
    exact httracked.fate_of_number hi' hstage hp hnumber
  -- A payment that goes on and has not been broadcast has not been sent.
  have hearly : ∀ {stage fate}, after = some stage → stage ≠ .funding → stage.fate? = some fate →
      fate ≠ .sent → ∀ p ∈ u.payments, p.number = order.number → p.fate = .sent →
        ∃ tx, u.recordOf order.number = some tx ∧ Shows tx p.order := by
    intro stage fate hafter hstage hfate hne p hp hnumber hsent
    have hold := (hgoes hafter hstage p hp hnumber).2 fate hfate
    exact absurd (hold.symm.trans hsent) hne
  -- A payment that is dropped has not been sent either.
  have hdropped : ∀ {v : PayWorld}, u = v.setFate order.number .dropped →
      ∀ p ∈ u.payments, p.number = order.number → p.fate = .sent →
        ∃ tx, u.recordOf order.number = some tx ∧ Shows tx p.order := by
    rintro v rfl p hp hnumber hsent
    obtain ⟨q, -, rfl⟩ := List.mem_map.mp hp
    by_cases hq : q.number = order.number
    · rw [if_pos hq] at hsent
      dsimp only at hsent
      rw [ite_self] at hsent
      cases hsent
    · rw [if_neg hq] at hnumber
      exact absurd hnumber hq
  -- What is stamped shows the payment.
  have hstamped : ∀ {record : ActionTx} {status : TxStatus} {stored : ActionTx},
      before = .signing record ∨ before = .sending record → s.recordOf order.number = some stored →
      isIndex order.matchIndex → status ∈ attemptedStatuses →
        ∃ tx, (s.writePending record status).recordOf order.number = some tx ∧ Shows tx order := by
    intro record status stored hbefore hstored hindex hstatus
    have hrecord : ∃ coin networkKind, record = newRecord coin networkKind order := by
      rcases hbefore with rfl | rfl
      · exact hs.record i order record (.inl hpaying)
      · exact hs.record i order record (.inr hpaying)
    obtain ⟨coin, networkKind, rfl⟩ := hrecord
    refine ⟨_, recordOf_writePending rfl hstored, shows_newRecord hindex ?_⟩
    split
    · decide
    · exact hstatus
  have hanswered : ∀ (fault : Bool) {record : ActionTx} {status : TxStatus},
      before = .sending record → status ∈ attemptedStatuses →
        ∀ p ∈ (if fault then s else s.writePending record status).payments,
          p.number = order.number → p.fate = .sent →
            ∃ tx, (if fault then s else s.writePending record status).recordOf order.number =
              some tx ∧ Shows tx p.order := by
    rintro fault record status rfl hstatus p hp hnumber hsent
    have hp : p ∈ s.payments := by
      split at hp
      · exact hp
      · rwa [payments_writePending] at hp
    obtain ⟨stored, hstored, hshows⟩ := hs.shown p hp hsent
    rw [hnumber] at hstored
    split
    · exact ⟨stored, hstored, hshows⟩
    · rw [(htracked.fate_of_number hpaying (by simp) hp hnumber).1]
      have hindex := halone.index p hp (.inr (.inr hsent))
      rw [(htracked.fate_of_number hpaying (by simp) hp hnumber).1] at hindex
      exact hstamped (.inr rfl) hstored hindex hstatus
  have hrecord : ∀ record, after = some (.signing record) ∨ after = some (.sending record) →
      ∃ coin networkKind, record = newRecord coin networkKind order := by
    cases heffect with
    | composed h =>
      rintro record (hrecord | hrecord)
      · cases hrecord
        exact ⟨_, _, rfl⟩
      · cases hrecord
    | stamped record =>
      rintro record' (hrecord | hrecord)
      · cases hrecord
      · cases hrecord
        exact hs.record i order record (.inl hpaying)
    | _ => simp
  have hpresent : ∀ record, after = some (.signing record) →
      ∃ tx, u.recordOf order.number = some tx := by
    cases heffect with
    | composed h =>
      rintro _ ⟨⟩
      exact ⟨_, Keyed.find_upsert_self (α := ActionTx) (κ := String) (newRecord _ _ order) _⟩
    | _ => simp
  refine hs.acts htracked hpaying heffect hrecord hpresent ?_
  cases heffect with
  | unfunded reserved =>
    intro p hp hnumber
    exact absurd hnumber (htracked.unstarted i order hpaying p hp)
  | funded reserved | checked fault h | verified | composed h =>
    exact hearly rfl (by simp) rfl (by simp)
  | refused | unverified | uncomposed | abandoned | unstamped | rejected => exact hdropped rfl
  | unlisted | listed record | recorded record txid paidAt fault table =>
    intro p hp hnumber hsent
    rw [← hnumber]
    exact hs.shown p hp hsent
  | stamped record =>
    intro p hp hnumber hsent
    obtain ⟨stored, hstored⟩ := hs.present i order record hpaying
    obtain ⟨q, hq, rfl, hfate⟩ := htracked.started i order _ hpaying (by simp)
    have hindex := halone.index q hq (.inr (.inl (hfate .submitted rfl)))
    rw [(hgoes rfl (by simp) p hp hnumber).1]
    exact hstamped (.inl rfl) hstored hindex (by decide)
  | accepted record fault | deferred record fault =>
    exact hanswered fault rfl (by decide)

private theorem mem_of_sent {p : Payment} (hp : p ∈ (s.setFate number .dropped).payments)
    (hsent : p.fate = .sent) : p ∈ s.payments := by
  obtain ⟨q, hq, rfl⟩ := List.mem_map.mp hp
  split at hsent
  · dsimp only at hsent
    rw [ite_self] at hsent
    cases hsent
  · next hnumber => rwa [if_neg hnumber]

/-- What another part of the wallet writes leaves the records that the payments need. -/
private theorem Vaulted.written (hs : s.Vaulted) (htracked : s.Tracked) {w : VaultWrite}
    (hG : s.PaysAlone (.write w)) : (s.written w).Vaulted := by
  cases w with
  | putConsent record | deleteConsent id =>
    exact hs.same (fun _ => rfl) (fun _ _ _ _ hj => hj) fun _ hp _ => hp
  | putPending tx =>
    have hrecords : ∀ number, (s.written (.putPending tx)).recordOf number =
        if recordId number = tx.id then some tx else s.recordOf number := fun number =>
      Keyed.find_upsert (α := ActionTx) (κ := String) (recordId number) tx s.pendingTxs
    refine ⟨hs.record, fun j order record hj => ?_, fun p hp hsent => ?_⟩
    · rw [hrecords]
      split
      · exact ⟨tx, rfl⟩
      · exact hs.present j order record hj
    · rw [hrecords]
      split
      · next hid => exact ⟨tx, rfl, hG p hp hsent hid⟩
      · exact hs.shown p hp hsent
  | deletePending id =>
    have hrecords : ∀ number, recordId number ≠ id →
        (s.written (.deletePending id)).recordOf number = s.recordOf number := by
      intro number hid
      have hfind : _ = ite _ (s.recordOf number) none :=
        Keyed.find_filter_key (fun k => decide (k ≠ id)) (recordId number) s.pendingTxs
      rw [if_pos (decide_eq_true hid)] at hfind
      exact hfind
    refine ⟨hs.record, fun j order record hj => ?_, fun p hp hsent => ?_⟩
    · obtain ⟨p, hp, rfl, hfate⟩ := htracked.started j order _ hj (by simp)
      rw [hrecords _ (hG p hp (.inl (hfate .submitted rfl)))]
      exact hs.present j _ record hj
    · rw [hrecords _ (hG p hp (.inr hsent))]
      exact hs.shown p hp hsent
  | rejectPending number =>
    let failed : ActionTx → ActionTx := fun tx => { tx with status := .failed }
    have hrecords : ∀ n, (s.written (.rejectPending number)).recordOf n =
        if recordId n = recordId number then (s.recordOf number).map failed else s.recordOf n :=
      fun n => Keyed.find_adjust (α := ActionTx) (κ := String) (f := failed) (fun _ => rfl) s.pendingTxs
    refine ⟨hs.record, fun j order record hj => ?_, fun p hp hsent => ?_⟩
    · obtain ⟨tx, htx⟩ := hs.present j order record hj
      rw [hrecords]
      split
      · next hid =>
        rw [← recordId_injective hid, htx]
        exact ⟨failed tx, rfl⟩
      · exact ⟨tx, htx⟩
    · obtain ⟨q, hq, rfl⟩ := List.mem_map.mp hp
      by_cases hnumber : q.number = number
      · rw [if_pos hnumber] at hsent
        dsimp only at hsent
        split at hsent
        · cases hsent
        · next hne => exact absurd hsent hne
      · rw [if_neg hnumber] at hsent ⊢
        rw [hrecords, if_neg fun hid => hnumber (recordId_injective hid)]
        exact hs.shown q hq hsent

/-- The records stay. -/
private theorem Vaulted.step (hs : s.Vaulted) (htracked : s.Tracked) (halone : s.Alone)
    (hG : s.PaysAlone a) (h : s.step descriptor a = some t) : t.Vaulted := by
  cases a with
  | boot i =>
    simp only [PayWorld.step, Option.ite_none_right_eq_some, Option.some.injEq] at h
    obtain ⟨-, rfl⟩ := h
    refine hs.same (fun _ => rfl) (fun j order stage _ hj => ?_) fun p hp _ => hp
    rcases paying_update rfl hj with ⟨-, hj⟩ | ⟨-, _, _, heq⟩
    · exact hj
    · cases heq
  | crash i =>
    obtain ⟨payer, hi, rfl⟩ := Option.map_eq_some_iff.mp h
    rcases dropUnsent_cases (s := s) payer.pc with hdrop | ⟨cycle, order, stage, hpc, hdrop⟩
    · rw [hdrop]
      refine hs.same (fun _ => rfl) (fun j order stage _ hj => ?_) fun p hp _ => hp
      rcases paying_update rfl hj with ⟨-, hj⟩ | ⟨-, _, _, heq⟩
      · exact hj
      · cases heq
    · rw [hdrop]
      refine hs.same (fun _ => rfl) (fun j order' stage' _ hj => ?_) fun p hp => mem_of_sent hp
      rcases paying_update rfl hj with ⟨-, hj⟩ | ⟨-, _, _, heq⟩
      · exact hj
      · cases heq
  | cycle i act =>
    obtain ⟨payer, hi, hstep⟩ := Option.bind_eq_some_iff.mp h
    obtain ⟨hpayments, hpending, payer', hpayers, hpayer'⟩ := stepCycle_cases hi hstep
    refine hs.same (fun number => ?_) (fun j order stage hstage hj => ?_) fun p hp _ => ?_
    · rw [recordOf, recordOf, hpending]
    · rcases paying_update hpayers hj with ⟨-, hj⟩ | ⟨-, watcher, cycle, heq⟩
      · exact hj
      · obtain ⟨⟩ := heq
        rcases hpayer' with ⟨hout, -⟩ | ⟨cycle', order', hpc, -⟩
        · exact absurd rfl (hout cycle order stage)
        · injection hpc with _ _ hfunding
          exact absurd hfunding hstage
    · rwa [hpayments] at hp
  | stage i act => exact hs.stepStage htracked halone h
  | write w =>
    obtain ⟨⟩ := h
    exact hs.written htracked hG

/-! ### One payment for a match -/

/-- A record that shows a payment refuses the next one from the same address. -/
theorem paymentInFlight_of_shows {network : Option (String × String)} {pendingTxs : List ActionTx}
    {tx : ActionTx} (htx : tx ∈ pendingTxs) (h : Shows tx order) :
    paymentInFlight network pendingTxs order.matchIndex order.consent.sourceAddress := by
  obtain ⟨hstatus, hreferences, hfrom⟩ := h
  rw [paymentInFlight, Bool.or_eq_true]
  refine .inr ?_
  rw [hasAttemptedCoinpay, List.any_eq_true]
  exact ⟨tx, List.mem_filter.mpr ⟨htx, decide_eq_true hfrom⟩,
    decide_eq_true ⟨hstatus, hreferences⟩⟩

/-- Where nothing passes its re-check, what is in flight was in flight before. -/
private theorem Alone.lower (hs : s.Alone) (h : ∀ p ∈ t.payments, p.InFlight →
    ∃ q ∈ s.payments, p.order = q.order ∧ q.InFlight) : t.Alone := by
  constructor
  · intro p hp hflight
    obtain ⟨q, hq, horder, hflight'⟩ := h p hp hflight
    rw [horder]
    exact hs.index q hq hflight'
  · intro p hp p' hp' hflight hflight' hmatch
    obtain ⟨q, hq, horder, hq'⟩ := h p hp hflight
    obtain ⟨r, hr, horder', hr'⟩ := h p' hp' hflight'
    rw [Payment.OfMatch, horder, horder'] at hmatch
    rw [Payment.number, Payment.number, horder, horder']
    exact hs.alone q hq r hr hq' hr' hmatch

/-- What becomes of a payment puts nothing in flight, unless it comes from the re-check. -/
private theorem Alone.settle (hs : s.Alone) {f : PayFate → PayFate}
    (ht : t.payments = (s.settle number f).payments)
    (hf : ∀ q ∈ s.payments, q.number = number → f q.fate = .checked ∨ f q.fate = .submitted ∨
      f q.fate = .sent → q.InFlight) : t.Alone := by
  refine hs.lower fun p hp hflight => ?_
  rw [ht] at hp
  obtain ⟨q, hq, rfl⟩ := List.mem_map.mp hp
  by_cases hnumber : q.number = number
  · rw [if_pos hnumber] at hflight ⊢
    exact ⟨q, hq, rfl, hf q hq hnumber hflight⟩
  · rw [if_neg hnumber] at hflight ⊢
    exact ⟨q, hq, rfl, hflight⟩

private theorem Alone.same (hs : s.Alone) (ht : t.payments = s.payments) : t.Alone :=
  hs.lower fun p hp hflight => ⟨p, ht ▸ hp, rfl, hflight⟩

private theorem Alone.setFate_dropped (hs : s.Alone)
    (ht : t.payments = (s.setFate number .dropped).payments) : t.Alone := by
  refine hs.settle ht fun q _ _ hfate => ?_
  rw [ite_self] at hfate
  rcases hfate with hfate | hfate | hfate <;> cases hfate

/-- A payment that passes its re-check is alone with its match. -/
private theorem Alone.checked (hs : s.Alone) (htracked : s.Tracked)
    (hi : s.Paying i order .checking) (hindex : isIndex order.matchIndex)
    (hnone : ∀ q ∈ s.payments, q.InFlight → ¬q.OfMatch order)
    (ht : t.payments = (s.setFate order.number .checked).payments) : t.Alone := by
  have hcases : ∀ p ∈ t.payments, p.InFlight →
      p.order = order ∨ ∃ q ∈ s.payments, p.order = q.order ∧ q.InFlight := by
    intro p hp hflight
    rw [ht] at hp
    obtain ⟨q, hq, rfl⟩ := List.mem_map.mp hp
    by_cases hnumber : q.number = order.number
    · rw [if_pos hnumber]
      exact .inl (htracked.fate_of_number hi (by simp) hq hnumber).1
    · rw [if_neg hnumber] at hflight ⊢
      exact .inr ⟨q, hq, rfl, hflight⟩
  constructor
  · intro p hp hflight
    rcases hcases p hp hflight with horder | ⟨q, hq, horder, hflight'⟩
    · rwa [horder]
    · rw [horder]
      exact hs.index q hq hflight'
  · intro p hp p' hp' hflight hflight' hmatch
    rw [Payment.number, Payment.number]
    rcases hcases p hp hflight with horder | ⟨q, hq, horder, hq'⟩ <;>
      rcases hcases p' hp' hflight' with horder' | ⟨r, hr, horder', hr'⟩
    · rw [horder, horder']
    · rw [Payment.OfMatch, horder, horder'] at hmatch
      exact absurd ⟨hmatch.1.symm, hmatch.2.symm⟩ (hnone r hr hr')
    · rw [Payment.OfMatch, horder, horder'] at hmatch
      exact absurd hmatch (hnone q hq hq')
    · rw [Payment.OfMatch, horder, horder'] at hmatch
      rw [horder, horder']
      exact hs.alone q hq r hr hq' hr' hmatch

/-- No payment of the match is in flight when the re-check lets one pass. -/
private theorem Vaulted.none_inFlight (hs : s.Vaulted) (hi : s.Paying i order .checking)
    {fault : Bool} (hG : s.PaysAlone (.stage i (.check fault)))
    (hpasses : fault ∨ ¬paymentInFlight (descriptor order.chainId) s.pendingTxs order.matchIndex
      order.consent.sourceAddress) :
    isIndex order.matchIndex ∧ ∀ q ∈ s.payments, q.InFlight → ¬q.OfMatch order := by
  obtain ⟨rfl, hindex, hothers⟩ := hG order hi.orderAt?
  refine ⟨hindex, fun q hq hflight hmatch => ?_⟩
  obtain ⟨hchecked, hsubmitted, hsource⟩ := hothers q hq hmatch
  rcases hflight with hfate | hfate | hfate
  · exact hchecked hfate
  · exact hsubmitted hfate
  · obtain ⟨tx, htx, hshows⟩ := hs.shown q hq hfate
    have hrefused : paymentInFlight (descriptor order.chainId) s.pendingTxs _ _ :=
      paymentInFlight_of_shows (Keyed.mem_of_find htx) hshows
    rw [hmatch.2, hsource hfate] at hrefused
    exact hpasses.elim (by simp) fun hpasses => hpasses hrefused

private theorem Alone.step (hs : s.Alone) (htracked : s.Tracked) (hvaulted : s.Vaulted)
    (hG : s.PaysAlone a) (h : s.step descriptor a = some t) : t.Alone := by
  cases a with
  | boot i =>
    simp only [PayWorld.step, Option.ite_none_right_eq_some, Option.some.injEq] at h
    obtain ⟨-, rfl⟩ := h
    exact hs.same rfl
  | crash i =>
    obtain ⟨payer, hi, rfl⟩ := Option.map_eq_some_iff.mp h
    rcases dropUnsent_cases (s := s) payer.pc with hdrop | ⟨cycle, order, stage, -, hdrop⟩
    · rw [hdrop]
      exact hs.same rfl
    · rw [hdrop]
      exact hs.setFate_dropped rfl
  | cycle i act =>
    obtain ⟨payer, hi, hstep⟩ := Option.bind_eq_some_iff.mp h
    exact hs.same (stepCycle_cases hi hstep).1
  | stage i act =>
    obtain ⟨watcher, cycle, order, before, after, u, watcher', hi, heffect, rfl⟩ := step_stage h
    have hpaying : s.Paying i order before := ⟨watcher, cycle, hi⟩
    have hfate : ∀ {v : PayWorld} {number : ℕ} {fate : PayFate}, v.payments = s.payments →
        (v.setFate number fate).payments = (s.setFate number fate).payments := by
      intro v number fate hv
      rw [setFate, PayWorld.settle, hv]
      rfl
    cases heffect with
    | funded reserved =>
      refine hs.lower fun p hp hflight => ?_
      rcases List.mem_append.mp hp with hp | hp
      · exact ⟨p, hp, rfl, hflight⟩
      · obtain rfl := List.mem_singleton.mp hp
        rcases hflight with hfate | hfate | hfate <;> cases hfate
    | refused | unverified | uncomposed | unstamped => exact hs.setFate_dropped rfl
    | abandoned record fault | rejected record fault =>
      exact hs.setFate_dropped (hfate (payments_stamped fault record .failed))
    | checked fault hpasses =>
      obtain ⟨hindex, hnone⟩ := hvaulted.none_inFlight hpaying hG hpasses
      exact hs.checked htracked hpaying hindex hnone rfl
    | verified =>
      have hpayments : (s.setFate order.number .submitted).payments =
        (s.settle order.number fun old => if old = .dropped then .dropped else .submitted).payments :=
        rfl
      refine hs.settle hpayments fun q hq hnumber _ => ?_
      exact .inl ((htracked.fate_of_number hpaying (by simp) hq hnumber).2 .checked rfl)
    | stamped record =>
      have hpayments : ((s.writePending record .broadcasting).setFate order.number .sent).payments =
        (s.setFate order.number .sent).payments := hfate (payments_stamped false record .broadcasting)
      refine hs.settle hpayments fun q hq hnumber _ => ?_
      exact .inr (.inl ((htracked.fate_of_number hpaying (by simp) hq hnumber).2 .submitted rfl))
    | accepted record fault => exact hs.same (payments_stamped fault record .broadcast)
    | deferred record fault => exact hs.same (payments_stamped fault record .queued)
    | unfunded | composed | unlisted | listed | recorded => exact hs.same rfl
  | write w =>
    obtain ⟨⟩ := h
    cases w with
    | rejectPending number =>
      have hu : (s.reject number).payments =
        (s.settle number fun old => if old = .sent then .dropped else old).payments := rfl
      refine hs.settle hu fun q _ _ hfate => ?_
      split at hfate
      · rcases hfate with hfate | hfate | hfate <;> cases hfate
      · exact hfate
    | _ => exact hs.same rfl

/-- What holds in every run that keeps the guard. -/
private structure Sound (s : PayWorld) : Prop where
  tracked : s.Tracked
  vaulted : s.Vaulted
  alone : s.Alone

private theorem Sound.start {table : ConsentTable} {pendingTxs : List ActionTx} :
    (PayWorld.start table pendingTxs).Sound := by
  have hnone : ∀ i order stage, ¬(PayWorld.start table pendingTxs).Paying i order stage := by
    rintro i order stage ⟨watcher, cycle, ⟨⟩⟩
  have hnil : ∀ p, p ∉ (PayWorld.start table pendingTxs).payments := fun p => List.not_mem_nil
  exact {
    tracked := {
      distinct := List.nodup_nil
      below := fun p hp => absurd hp (hnil p)
      reserved := fun i order stage h => absurd h (hnone i order stage)
      unstarted := fun i order h => absurd h (hnone i order .funding)
      started := fun i order stage h => absurd h (hnone i order stage)
      apart := fun i j order order' stage stage' h => absurd h (hnone i order stage) }
    vaulted := {
      record := fun i order record h => absurd h (not_or.mpr ⟨hnone i order _, hnone i order _⟩)
      present := fun i order record h => absurd h (hnone i order _)
      shown := fun p hp => absurd hp (hnil p) }
    alone := {
      index := fun p hp => absurd hp (hnil p)
      alone := fun p hp => absurd hp (hnil p) } }

private theorem Sound.paidOnce (hs : s.Sound) : s.PaidOnce := by
  have hdistinct : s.payments.Pairwise fun p q => p.number ≠ q.number :=
    List.pairwise_map.mp hs.tracked.distinct
  refine hdistinct.imp_of_mem fun hp hq hne hpaid hpaid' hmatch => ?_
  exact hne (hs.alone.alone _ hp _ hq (.inr hpaid) (.inr hpaid') hmatch)

/-- **A match is paid once.** In a run whose re-checks read the pending transactions while no
other payment of the match is on its way to its broadcast, and whose writes keep the records of
what may have gone out, no state has two payments of one match handed to submission, unless one
of them is known never to have gone out. -/
theorem paid_once {table : ConsentTable} {pendingTxs : List ActionTx} {as : List PayAct}
    (hrun : Transition.Under PaysAlone (step descriptor) (start table pendingTxs) as) :
    Transition.Throughout PaidOnce (step descriptor) (start table pendingTxs) as := by
  have hstep : ∀ s a t, Sound s → s.PaysAlone a → s.step descriptor a = some t → Sound t :=
    fun s a t hs hG h => ⟨hs.tracked.step h, hs.vaulted.step hs.tracked hs.alone hG h,
      hs.alone.step hs.tracked hs.vaulted hG h⟩
  exact (Transition.throughout_of_under hstep Sound.start hrun).mono fun s hs => hs.paidOnce

/-! ### Two processes -/

/-- One process pays the match, and the next one, which takes the lease over, is refused. -/
theorem paid_once_in_turn :
    Transition.Throughout PaidOnce (step sampleDescriptor) consented
      (cycleBegins 0 0 ++ paidAndRecorded 0 "1559" ++ [.crash 0] ++ cycleBegins 1 200000) :=
  paid_once (by decide +kernel)

/-- A process stalls after its re-check, the next one takes the lease over and re-checks before
there is a record, and both hand over their payment of the match. -/
theorem both_processes_pay :
    ∃ t, Transition.run (step sampleDescriptor) consented
        (cycleBegins 0 0 ++ recheck 0 "1559" ++ cycleBegins 1 200000 ++ recheck 1 "1559" ++
          [.stage 1 (.verify false), .stage 0 (.verify false)]) = some t ∧
      t.payments.map (fun p => (p.order.matchIndex, p.fate)) =
        [("1559", .submitted), ("1559", .submitted)] ∧ ¬t.PaidOnce := by
  have hpaid : (Transition.run (step sampleDescriptor) consented
      (cycleBegins 0 0 ++ recheck 0 "1559" ++ cycleBegins 1 200000 ++ recheck 1 "1559" ++
        [.stage 1 (.verify false), .stage 0 (.verify false)])).map
        (fun t => (t.payments.map fun p => (p.order.matchIndex, p.fate), decide t.PaidOnce)) =
      some ([("1559", .submitted), ("1559", .submitted)], false) := by
    decide +kernel
  obtain ⟨t, ht, hpaid⟩ := Option.map_eq_some_iff.mp hpaid
  obtain ⟨hpayments, honce⟩ := Prod.mk.inj hpaid
  exact ⟨t, ht, hpayments, of_decide_eq_false honce⟩

end PayWorld

end XchainWallet
