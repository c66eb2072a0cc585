import XchainWallet.Market.AutopayConsent

/-!
# The stored consent reflects every call

The table reflects the calls that have resolved when it is what their changes make of the first
table, one after the other (`ConsentWorld.Reflects`). Then a payment that was recorded is in the
ledger, and a revocation stands until the flag is set again. A put writes back a whole record,
so it keeps this exactly where the record it has read and the stored one differ at most in the
field that it changes (`ConsentWorld.PutsAsRead`): `reflects_throughout_iff`.
-/

namespace XchainWallet

open Transition

namespace ConsentChange

/-- The record under `id` after the changes of a history that concern it. -/
def replay (id : String) (record : AutopayOrder) : List (String × ConsentChange) → AutopayOrder
  | [] => record
  | (id', change) :: history =>
    replay id (if id' = id then change.apply record else record) history

/-- The table after the changes of a history. -/
def replayTable (records : List AutopayOrder) :
    List (String × ConsentChange) → List AutopayOrder
  | [] => records
  | (id, change) :: history =>
    replayTable (Keyed.adjust AutopayOrder.id id change.apply records) history

variable {id : String} {record : AutopayOrder} {history : List (String × ConsentChange)}

theorem replay_append (more : List (String × ConsentChange)) :
    replay id record (history ++ more) = replay id (replay id record history) more := by
  induction history generalizing record with
  | nil => rfl
  | cons entry history ih => exact ih

theorem replayTable_concat (records : List AutopayOrder) (change : ConsentChange) :
    replayTable records (history ++ [(id, change)]) =
      Keyed.adjust AutopayOrder.id id change.apply (replayTable records history) := by
  induction history generalizing records with
  | nil => rfl
  | cons entry history ih => exact ih _

/-- In the table, every record is replayed by itself. -/
theorem find_replayTable (id : String) (records : List AutopayOrder)
    (history : List (String × ConsentChange)) :
    Keyed.find AutopayOrder.id id (replayTable records history) =
      (Keyed.find AutopayOrder.id id records).map fun record => replay id record history := by
  induction history generalizing records with
  | nil => simp [replay, replayTable]
  | cons entry history ih =>
    obtain ⟨id', change⟩ := entry
    rw [replayTable, ih, Keyed.find_adjust change.apply_id]
    by_cases hid : id' = id
    · simp [replay, hid, Function.comp_def]
    · simp [replay, hid, Ne.symm hid]

/-- What a change does to a record, whether it concerns the record or not. -/
theorem replay_keeps {P : AutopayOrder → Prop}
    (hkeeps : ∀ change r, (id, change) ∈ history → P r → P (change.apply r)) (h : P record) :
    P (replay id record history) := by
  induction history generalizing record with
  | nil => exact h
  | cons entry history ih =>
    obtain ⟨id', change⟩ := entry
    refine ih (fun change r hmem => hkeeps change r (.tail _ hmem)) ?_
    by_cases hid : id' = id
    · rw [if_pos hid]
      exact hkeeps change record (hid ▸ (.head _)) h
    · rw [if_neg hid]
      exact h

/-- No change takes a payment out of the ledger. -/
theorem mem_payments_apply {p : AutopayPayment} (change : ConsentChange)
    (h : p ∈ record.payments.getD []) : p ∈ (change.apply record).payments.getD [] := by
  cases change with
  | autopay enabled | orderActionIndex index => exact h
  | payment q => exact List.mem_append_left _ h

/-- Only setting the flag arms a record that is revoked. -/
theorem autopay_apply {change : ConsentChange} (hset : change ≠ autopay true)
    (h : record.autopay = false) : (change.apply record).autopay = false := by
  cases change with
  | autopay enabled =>
    cases enabled with
    | false => rfl
    | true => exact absurd rfl hset
  | orderActionIndex index | payment q => exact h

end ConsentChange

/-! ### Reflection -/

namespace ConsentWorld

open ConsentChange

/-- The table is what the changes that have landed make of the first one. -/
def Reflects (first : ConsentTable) (s : ConsentWorld) : Prop :=
  s.table.records = replayTable first.records s.history

/-- A put that lands finds the record that its call has read, the field that it changes apart. -/
def PutsAsRead (s : ConsentWorld) (a : ConsentAct) : Prop :=
  ∀ i record change after, a = .put i → s.calls i = some (.putting record change after) →
    ∃ stored, s.table.get record.id = some stored ∧ change.apply record = change.apply stored

variable {first : ConsentTable} {s t : ConsentWorld} {a : ConsentAct}

/-- A put keeps the reflection exactly where it finds what its call has read. -/
theorem reflects_landed_iff {record : AutopayOrder} {change : ConsentChange}
    (h : s.Reflects first) :
    (s.landed record change).Reflects first ↔
      ∃ stored, s.table.get record.id = some stored ∧
        change.apply record = change.apply stored := by
  have hupsert := Keyed.upsert_eq_adjust change.apply_id (b := change.apply record)
    s.table.distinct
  rw [change.apply_id] at hupsert
  rw [Reflects, landed, replayTable_concat, ← h]
  exact hupsert

theorem reflects_step_iff (h : s.Reflects first) (hstep : s.step a = some t) :
    t.Reflects first ↔ s.PutsAsRead a := by
  rcases step_cases hstep with ⟨htable, hhistory, hput⟩ | ⟨i, record, change, after, ha, hcall, ht⟩
  · refine iff_of_true ?_ fun i _ _ _ ha => absurd ha (hput i)
    rw [Reflects, htable, hhistory]
    exact h
  · have hlanded : t.Reflects first ↔ (s.landed record change).Reflects first := by rw [ht]; rfl
    rw [hlanded, reflects_landed_iff h]
    constructor
    · rintro hstored j record' change' after' ha' hcall'
      obtain rfl : i = j := ConsentAct.put.inj (ha.symm.trans ha')
      obtain ⟨rfl, rfl, rfl⟩ := ConsentPc.putting.inj (Option.some.inj (hcall.symm.trans hcall'))
      exact hstored
    · intro hreads
      exact hreads i record change after ha hcall

theorem putsAsRead_of_disabled (h : s.step a = none) : s.PutsAsRead a := by
  rintro i record change after rfl hcall
  simp [step, hcall] at h

/-- The record under an id is the first one, replayed through all that happened and through
what happened since. -/
theorem Reflects.get_eq (h : s.Reflects first) {id : String}
    {before after : List (String × ConsentChange)} {change : ConsentChange}
    (hhistory : s.history = before ++ (id, change) :: after) {record : AutopayOrder}
    (hrecord : s.table.get id = some record) :
    ∃ r, record = replay id (change.apply r) after := by
  rw [ConsentTable.get, h, find_replayTable, Option.map_eq_some_iff] at hrecord
  obtain ⟨r, -, rfl⟩ := hrecord
  refine ⟨replay id r before, ?_⟩
  rw [hhistory, replay_append, replay, if_pos rfl]

/-- A recorded payment is in the ledger. -/
theorem Reflects.payment_mem (h : s.Reflects first) {id : String} {p : AutopayPayment}
    (hp : (id, .payment p) ∈ s.history) {record : AutopayOrder}
    (hrecord : s.table.get id = some record) : p ∈ record.payments.getD [] := by
  obtain ⟨before, after, hhistory⟩ := List.append_of_mem hp
  obtain ⟨r, rfl⟩ := h.get_eq hhistory hrecord
  refine replay_keeps (P := fun r => p ∈ r.payments.getD [])
    (fun change _ _ hmem => mem_payments_apply change hmem) ?_
  exact List.mem_append_right _ (.head _)

/-- A revocation stands until the flag is set again. -/
theorem Reflects.revoked (h : s.Reflects first) {id : String}
    {before after : List (String × ConsentChange)}
    (hhistory : s.history = before ++ (id, .autopay false) :: after)
    (hset : (id, .autopay true) ∉ after) {record : AutopayOrder}
    (hrecord : s.table.get id = some record) : record.autopay = false := by
  obtain ⟨r, rfl⟩ := h.get_eq hhistory hrecord
  refine replay_keeps (P := fun r => r.autopay = false) (fun change _ hmem hfalse => ?_) rfl
  exact autopay_apply (fun hchange => hset (hchange ▸ hmem)) hfalse

/-- **The stored consent reflects every call, as long as no put is stale.** Whatever the calls and
their order, the table reflects all changes that have landed in every state of the run exactly
when every put finds the stored record as its call has read it, the field that it changes apart.
Where the table reflects them, recorded payments are in the ledger and revocations stand. -/
theorem consent_reflects_calls (first : ConsentTable) (acts : List ConsentAct) :
    (Transition.Throughout (Reflects first) step (start first) acts ↔
      Transition.Under PutsAsRead step (start first) acts) ∧
      ∀ s, Reflects first s →
        (∀ id p record, (id, .payment p) ∈ s.history → s.table.get id = some record →
          p ∈ record.payments.getD []) ∧
        ∀ id before after record, s.history = before ++ (id, .autopay false) :: after →
          (id, .autopay true) ∉ after → s.table.get id = some record → record.autopay = false := by
  refine ⟨⟨fun h => ?_, fun h => ?_⟩, fun s h => ⟨?_, ?_⟩⟩
  · refine under_of_throughout (fun s a t hs hstep hstale hreflects => ?_)
      (fun _ _ => putsAsRead_of_disabled) h
    exact hstale ((reflects_step_iff hs hstep).mp hreflects)
  · exact throughout_of_under
      (fun s a t hs hreads hstep => (reflects_step_iff hs hstep).mpr hreads) rfl h
  · intro id p record hp hrecord
    exact h.payment_mem hp hrecord
  · intro id before after record hhistory hset hrecord
    exact h.revoked hhistory hset hrecord

/-- One order, placed and armed, of which nothing is indexed yet. -/
def placedTable : ConsentTable where
  records := [{
    id := "btc::ab"
    walletId := "w1"
    chainId := "btc"
    sourceAddress := "a1"
    txid := "ab"
    orderActionIndex := none
    giveCoinAmount := .text "1"
    getAmount := .text "100"
    autopay := true
    payments := some [] }]
  distinct := List.nodup_singleton _

/-- A revocation, and then the lookup of the index: the order is not armed. -/
theorem revoked_before_the_lookup :
    ∃ s, run step (start placedTable)
        [.begin 0 (.setAutopayEnabled "btc::ab" false), .read 0, .put 0,
          .begin 1 (.resolveOrderActionIndexes none), .read 1,
          .answer 1 (some [⟨"ORDER", some "1558", .text "valid"⟩]), .put 1] = some s ∧
      ∀ record, s.table.get "btc::ab" = some record → record.autopay = false := by
  have hsummary : (run step (start placedTable)
      [.begin 0 (.setAutopayEnabled "btc::ab" false), .read 0, .put 0,
        .begin 1 (.resolveOrderActionIndexes none), .read 1,
        .answer 1 (some [⟨"ORDER", some "1558", .text "valid"⟩]), .put 1]).map
        (fun s => (s.history, s.table.records)) =
      some ([("btc::ab", .autopay false), ("btc::ab", .orderActionIndex "1558")],
        ConsentChange.replayTable placedTable.records
          [("btc::ab", .autopay false), ("btc::ab", .orderActionIndex "1558")]) := by
    decide +kernel
  obtain ⟨s, hs, hall⟩ := Option.map_eq_some_iff.mp hsummary
  obtain ⟨hhistory, hrecords⟩ := Prod.mk.inj hall
  have hreflects : Reflects placedTable s := by rw [Reflects, hrecords, hhistory]
  refine ⟨s, hs, fun record hrecord => ?_⟩
  exact ((consent_reflects_calls placedTable []).2 s hreflects).2 "btc::ab" []
    [("btc::ab", .orderActionIndex "1558")] record hhistory (by simp) hrecord

/-- The lookup writes back the record that it has read before the revocation: the order is armed
again, and the payment that was recorded meanwhile is gone. -/
theorem lookup_undoes_a_revocation :
    ∃ s record, run step (start placedTable)
        [.begin 0 (.resolveOrderActionIndexes none), .read 0,
          .begin 1 (.recordAutopayPayment "btc::ab" ⟨.text "1559", .text "50000000", "cd", "now"⟩),
          .read 1, .put 1, .begin 1 (.setAutopayEnabled "btc::ab" false), .read 1, .put 1,
          .answer 0 (some [⟨"ORDER", some "1558", .text "valid"⟩]), .put 0] = some s ∧
      s.history = [("btc::ab", .payment ⟨.text "1559", .text "50000000", "cd", "now"⟩),
        ("btc::ab", .autopay false), ("btc::ab", .orderActionIndex "1558")] ∧
      s.table.get "btc::ab" = some record ∧ record.autopay = true ∧ record.payments = some [] := by
  have hsummary : (run step (start placedTable)
      [.begin 0 (.resolveOrderActionIndexes none), .read 0,
        .begin 1 (.recordAutopayPayment "btc::ab" ⟨.text "1559", .text "50000000", "cd", "now"⟩),
        .read 1, .put 1, .begin 1 (.setAutopayEnabled "btc::ab" false), .read 1, .put 1,
        .answer 0 (some [⟨"ORDER", some "1558", .text "valid"⟩]), .put 0]).map
        (fun s => (s.history, (s.table.get "btc::ab").map fun r => (r.autopay, r.payments))) =
      some ([("btc::ab", .payment ⟨.text "1559", .text "50000000", "cd", "now"⟩),
        ("btc::ab", .autopay false), ("btc::ab", .orderActionIndex "1558")],
        some (true, some [])) := by
    decide +kernel
  obtain ⟨s, hs, hall⟩ := Option.map_eq_some_iff.mp hsummary
  obtain ⟨hhistory, hget⟩ := Prod.mk.inj hall
  obtain ⟨record, hrecord, hfields⟩ := Option.map_eq_some_iff.mp hget
  obtain ⟨hautopay, hpayments⟩ := Prod.mk.inj hfields
  exact ⟨s, record, hs, hhistory, hrecord, hautopay, hpayments⟩

end ConsentWorld

end XchainWallet
