import XchainWallet.Flows.Ads

/-!
# Donations are conserved

A booking counts the accumulator as it is then, not the output that the transaction carries. So the
counters stay true to what was broadcast in exactly those runs in which each donation is booked with
the accumulator still at the amount that was composed, and two donations composed from one accumulator
break them.
-/

namespace XchainWallet

open Transition

variable {settings : Option AdsSettings} {chainId other : String} {chainRegistry : AdsRegistry}

/-! ### The counters -/

/-- An edit of the user leaves the counters alone. -/
theorem counters_edit (edit : AdsEdit) (chainId : String) :
    accumulatedSats (edit.apply settings) chainId = accumulatedSats settings chainId ∧
      donatedSats (edit.apply settings) chainId = donatedSats settings chainId := by
  cases settings with
  | none =>
    cases edit with
    | create enabled chains =>
      simp only [AdsEdit.apply, Option.getD_none, accumulatedSats, donatedSats,
        Option.bind_some, Option.bind_none, Option.elim_none]
      split_ifs
      · exact ⟨rfl, rfl⟩
      · exact ⟨rfl, rfl⟩
    | _ => exact ⟨rfl, rfl⟩
  | some s =>
    cases edit with
    | create enabled chains | setEnabled enabled => exact ⟨rfl, rfl⟩
    | seedChain chain | setAmounts chain perTx trigger | setRole chain role =>
      simp only [AdsEdit.apply, Option.map_some, accumulatedSats, donatedSats, Option.bind_some]
      rcases eq_or_ne chainId chain with rfl | hne
      · rw [Function.update_self]
        cases s.perChain chainId <;> exact ⟨rfl, rfl⟩
      · rw [Function.update_of_ne hne]
        exact ⟨rfl, rfl⟩

/-- The state of a chain where the system is on, read off the record. -/
theorem adsStateOn_eq_some {state : AdsChainState} :
    adsStateOn settings chainId = some state ↔
      ∃ s, settings = some s ∧ s.enabled = true ∧ s.perChain chainId = some state := by
  cases settings with
  | none | some s => simp [adsStateOn]

/-- Where the system is off for a chain, a booking changes nothing. -/
theorem commitAdsStepNow_off (h : adsStateOn settings chainId = none) (donationIncluded writes : Bool) :
    commitAdsStepNow settings chainId donationIncluded chainRegistry writes = settings := by
  cases settings with
  | none => cases writes <;> rfl
  | some s =>
    cases writes with
    | false => rfl
    | true =>
      have hoff : s.enabled = true → s.perChain chainId = none := by
        intro henabled
        simpa [adsStateOn, henabled] using h
      simp only [commitAdsStepNow, if_true, Option.map_some, stepAdsAccumulator]
      cases henabled : s.enabled with
      | false => rfl
      | true => simp [hoff henabled]

/-- A booking changes the counters of its own chain only. -/
theorem counters_commit_ne (hne : other ≠ chainId) (donationIncluded writes : Bool) :
    let next := commitAdsStepNow settings chainId donationIncluded chainRegistry writes
    accumulatedSats next other = accumulatedSats settings other ∧
      donatedSats next other = donatedSats settings other := by
  cases writes with
  | false => exact ⟨rfl, rfl⟩
  | true =>
    cases settings with
    | none => exact ⟨rfl, rfl⟩
    | some s =>
      simp only [commitAdsStepNow, if_true, Option.map_some, stepAdsAccumulator]
      split
      · exact ⟨rfl, rfl⟩
      · split
        · exact ⟨rfl, rfl⟩
        · simp only [accumulatedSats, donatedSats, Option.bind_some]
          rw [Function.update_of_ne hne]
          exact ⟨rfl, rfl⟩

variable (chainRegistry) in
/-- **One booking.** The per-transaction amount is added, and with a donation the accumulator as it
is goes over to what was donated. -/
theorem counters_commit {state : AdsChainState} (h : adsStateOn settings chainId = some state)
    (donationIncluded : Bool) :
    let next := commitAdsStepNow settings chainId donationIncluded chainRegistry true
    let perTx := (resolveAdsChainConfig state (chainRegistry chainId)).perTxAmountSats
    donatedSats next chainId = donatedSats settings chainId +
        (if donationIncluded = true then state.accumulatedSats else 0) ∧
      accumulatedSats next chainId + donatedSats next chainId =
        accumulatedSats settings chainId + donatedSats settings chainId + perTx := by
  obtain ⟨s, rfl, henabled, hstate⟩ := adsStateOn_eq_some.mp h
  simp only [commitAdsStepNow, if_true, Option.map_some, stepAdsAccumulator, henabled, Bool.not_true,
    Bool.false_eq_true, if_false, hstate, accumulatedSats, donatedSats, Option.bind_some,
    Function.update_self, Option.elim_some, AdsChainState.next]
  cases donationIncluded with
  | false =>
    refine ⟨rfl, ?_⟩
    simp only [Bool.false_eq_true, if_false]
    omega
  | true =>
    refine ⟨rfl, ?_⟩
    simp only [if_true]
    omega

/-! ### The world -/

namespace AdsWorld

variable {w w' : AdsWorld}

/-- A step that leaves settings and settled transactions alone, but for the counters. -/
theorem Conserved.of_same (h : w.Conserved) (hsettled : w'.settled = w.settled)
    (hcounters : ∀ chainId,
      accumulatedSats w'.settings chainId = accumulatedSats w.settings chainId ∧
        donatedSats w'.settings chainId = donatedSats w.settings chainId) : w'.Conserved := by
  intro chainId
  rw [(hcounters chainId).1, (hcounters chainId).2, settledOn, hsettled]
  exact h chainId

/-- What a booking adds to the settled transactions of a chain. -/
theorem settledOn_settle (i : ℕ) (tx : AdsTx) (writes : Bool) (chainId : String) :
    (w.settle i tx writes).settledOn chainId = w.settledOn chainId ++
      if tx.chainId = chainId then [⟨tx.chainId, tx.donation, w.perTxAmount tx⟩] else [] := by
  simp only [settledOn, settle, List.filter_append, List.filter_cons, List.filter_nil,
    decide_eq_true_eq]

/-- A booking leaves the other chains as they were. -/
theorem counters_settle_ne {i : ℕ} {tx : AdsTx} {writes : Bool} (hne : chainId ≠ tx.chainId) :
    accumulatedSats (w.settle i tx writes).settings chainId = accumulatedSats w.settings chainId ∧
      donatedSats (w.settle i tx writes).settings chainId = donatedSats w.settings chainId := by
  rcases hsubmitted : tx.submitted with _ | ⟨on, donationIncluded⟩
  · simp only [settle, hsubmitted]
    exact ⟨trivial, trivial⟩
  · cases on with
    | false =>
      simp only [settle, hsubmitted]
      exact ⟨trivial, trivial⟩
    | true =>
      simp only [settle, hsubmitted]
      exact counters_commit_ne hne donationIncluded writes

/-- **What a booking does to the counters of its chain.** -/
theorem counters_settle (i : ℕ) (tx : AdsTx) (writes : Bool) :
    let added := if writes = true then w.perTxAmount tx else 0
    donatedSats (w.settle i tx writes).settings tx.chainId =
        donatedSats w.settings tx.chainId + w.counted tx writes ∧
      accumulatedSats (w.settle i tx writes).settings tx.chainId +
          donatedSats (w.settle i tx writes).settings tx.chainId =
        accumulatedSats w.settings tx.chainId + donatedSats w.settings tx.chainId + added := by
  rcases hsubmitted : tx.submitted with _ | ⟨on, donationIncluded⟩
  · simp [settle, booked, counted, perTxAmount, hsubmitted]
  · cases on with
    | false => simp [settle, booked, counted, perTxAmount, hsubmitted]
    | true =>
      simp only [settle, booked, counted, perTxAmount, hsubmitted, Option.elim_some]
      cases hstate : adsStateOn w.settings tx.chainId with
      | none =>
        rw [commitAdsStepNow_off hstate]
        simp
      | some state =>
        cases writes with
        | false => simp [commitAdsStepNow]
        | true =>
          have hcounters := counters_commit w.chainRegistry hstate donationIncluded
          exact ⟨hcounters.1, hcounters.2⟩

/-- A booking keeps conservation exactly where it is true to the bytes. -/
theorem conserved_settle_iff (h : w.Conserved) {i : ℕ} {tx : AdsTx} {writes : Bool}
    (htx : w.txs[i]? = some tx) (hlanded : tx.landed = true) :
    (w.settle i tx writes).Conserved ↔ w.TrueToBytes (.settle i writes) := by
  obtain ⟨hdonated, htotal⟩ := counters_settle (w := w) i tx writes
  obtain ⟨hdonated₀, htotal₀⟩ := h tx.chainId
  have hown : (w.settle i tx writes).Conserved ↔
      (donatedSats (w.settle i tx writes).settings tx.chainId =
          donatedSats w.settings tx.chainId + tx.donation ∧
        accumulatedSats (w.settle i tx writes).settings tx.chainId +
            donatedSats (w.settle i tx writes).settings tx.chainId =
          accumulatedSats w.settings tx.chainId + donatedSats w.settings tx.chainId +
            w.perTxAmount tx) := by
    have hdonations : (((w.settle i tx writes).settledOn tx.chainId).map SettledTx.donation).sum =
        donatedSats w.settings tx.chainId + tx.donation := by
      rw [settledOn_settle, if_pos rfl, List.map_append, List.sum_append, hdonated₀]
      simp
    have hamounts :
        (((w.settle i tx writes).settledOn tx.chainId).map SettledTx.perTxAmountSats).sum =
          accumulatedSats w.settings tx.chainId + donatedSats w.settings tx.chainId +
            w.perTxAmount tx := by
      rw [settledOn_settle, if_pos rfl, List.map_append, List.sum_append, htotal₀]
      simp
    rw [← hdonations, ← hamounts]
    constructor
    · intro hc
      exact hc tx.chainId
    · intro hc chainId
      rcases eq_or_ne chainId tx.chainId with rfl | hne
      · exact hc
      · rw [(counters_settle_ne hne).1, (counters_settle_ne hne).2, settledOn_settle,
          if_neg hne.symm, List.append_nil]
        exact h chainId
  rw [hown, htotal, hdonated]
  have htrue : w.TrueToBytes (.settle i writes) ↔ w.BooksBytes tx writes := by
    simp only [TrueToBytes, htx, Option.mem_def, Option.some.injEq, forall_eq', hlanded, forall_const]
  rw [htrue, BooksBytes]
  refine and_congr (by omega) ?_
  cases writes with
  | false =>
    simp only [Bool.false_eq_true, if_false, forall_const]
    omega
  | true => simp

/-- A step other than a booking leaves the counters and the books alone. -/
theorem conserved_step_iff (h : w.Conserved) {a : AdsAct} (hstep : step w a = some w') :
    w'.Conserved ↔ w.TrueToBytes a := by
  cases a with
  | edit edit =>
    cases hstep
    exact iff_of_true (h.of_same rfl (counters_edit edit)) trivial
  | compose chainId customOutputs carriesVerdict | submitNow chainId customOutputs =>
    cases hstep
    exact iff_of_true (h.of_same rfl fun _ => ⟨rfl, rfl⟩) trivial
  | submit i | land i =>
    obtain ⟨tx, -, hstep⟩ := Option.bind_eq_some_iff.mp hstep
    split at hstep
    · cases hstep
    · cases hstep
      exact iff_of_true (h.of_same rfl fun _ => ⟨rfl, rfl⟩) trivial
  | settle i writes =>
    obtain ⟨tx, htx, hstep⟩ := Option.bind_eq_some_iff.mp hstep
    split at hstep
    · rename_i hlanded
      cases hstep
      exact conserved_settle_iff h htx hlanded
    · cases hstep

theorem trueToBytes_of_disabled {a : AdsAct} (h : step w a = none) : w.TrueToBytes a := by
  cases a with
  | settle i writes =>
    intro tx htx hlanded
    simp [step, Option.mem_def.mp htx, hlanded] at h
  | _ => trivial

theorem conserved_fresh (chainRegistry : AdsRegistry) : (fresh chainRegistry).Conserved :=
  fun _ => ⟨rfl, rfl⟩

/-- **Conservation.** A run keeps the counters true to what was broadcast throughout, exactly where
each of its bookings is true to the bytes of its transaction. -/
theorem conserved_iff_trueToBytes (chainRegistry : AdsRegistry) (as : List AdsAct) :
    Throughout Conserved step (fresh chainRegistry) as ↔
      Under TrueToBytes step (fresh chainRegistry) as := by
  constructor
  · refine under_of_throughout (fun w a w' h hstep hnot hc => ?_) (fun w a hdisabled => ?_)
    · exact hnot ((conserved_step_iff h hstep).mp hc)
    · exact trueToBytes_of_disabled hdisabled
  · intro hunder
    exact throughout_of_under (fun w a w' h htrue hstep => (conserved_step_iff h hstep).mpr htrue)
      (conserved_fresh chainRegistry) hunder

/-! ### Two donations from one accumulator -/

/-- A chain with a donation address and amounts of its own. -/
private def registry : AdsRegistry := fun chainId =>
  if chainId = "bitcoin" then some ⟨some ⟨1000, 2000⟩, none, some "donate"⟩ else none

/-- Two transactions that fill the accumulator up to its trigger. -/
private def filled : List AdsAct :=
  [.edit (.create true ["bitcoin"]), .submitNow "bitcoin" [], .land 0, .settle 0 true,
    .submitNow "bitcoin" [], .land 0, .settle 0 true]

/-- One donation, booked before anything else is composed. -/
theorem conserved_donated :
    Throughout Conserved step (fresh registry)
      (filled ++ [.submitNow "bitcoin" [], .land 0, .settle 0 true]) :=
  (conserved_iff_trueToBytes registry _).mpr (by decide)

/-- Two transactions composed with a donation before either is booked. -/
private def overlapping : List AdsAct :=
  filled ++ [.submitNow "bitcoin" [], .submitNow "bitcoin" [], .land 0, .land 1, .settle 0 true,
    .settle 0 true]

private theorem counters_overlapping :
    (run step (fresh registry) overlapping).map (fun w =>
      (donatedSats w.settings "bitcoin", ((w.settledOn "bitcoin").map SettledTx.donation).sum)) =
      some (3000, 4000) := by
  decide

/-- Four thousand are broadcast as donations and three thousand recorded. -/
theorem not_conserved_overlapping :
    ¬∀ (chainRegistry : AdsRegistry) (as : List AdsAct) (w : AdsWorld),
      run step (fresh chainRegistry) as = some w → w.Conserved := by
  intro h
  obtain ⟨w, hrun, hcounters⟩ := Option.map_eq_some_iff.mp counters_overlapping
  have hconserved := (h registry overlapping w hrun "bitcoin").1
  obtain ⟨hdonated, hbroadcast⟩ := Prod.mk.inj hcounters
  rw [hdonated, hbroadcast] at hconserved
  exact absurd hconserved (by decide)

end AdsWorld

end XchainWallet
