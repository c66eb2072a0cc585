import XchainWallet.Decoder.BatchOrder
import XchainWallet.Decoder.FeeRows

/-!
# One post-state for each ticker

The rows of a projection should show one balance after for a ticker, with all that the action and the two
fees do to it. `simulateAction_shows_iff` says exactly when they do: a coin that the action moves on a row
the miner fee is not folded into is shown twice, or without the fee where that is not known; a batch can
be off by its sweeps; and a fee that is not zero, but that a number rounds to zero or to infinity, is left
out.
-/

namespace XchainWallet.TxSimulator

open Json Transition

/-! ### What an action and its fees do -/

/-- What an action does to a ticker: a batch its commands one after another, any other its own effect. -/
def principal (a : Action) (chain : Option String) (balMap : Balances) (coinTick : Option Tick)
    (tick : Tick) : ℚ :=
  if a.action = "BATCH" then changeInOrder chain a.commands balMap tick
  else (actionEffect coinTick a.p a.action tick).elim 0 (Effect.fromStart (balMap.before tick).value)

/-- The amount of a miner fee, where it is known. -/
def minerAmount : FeeEstimate → Option ℚ
  | .absent => some 0
  | .unknown => none
  | .amount fee => some (feeValue fee)

/-- What the miner fee takes off a ticker. -/
def minerEffect (coinTick : Option Tick) (feeEstimate : FeeEstimate) (tick : Tick) : Option ℚ :=
  if coinTick = some tick then (minerAmount feeEstimate).map Neg.neg else some 0

/-- What the protocol fee takes off a ticker. -/
def protocolEffect (coinTick : Option Tick) (protocolFee : Option ProtocolFee) (tick : Tick) : ℚ :=
  protocolFee.elim 0 fun fee =>
    if (upper fee.tick).or coinTick = some tick then -feeValue (str fee.amount) else 0

/-- Everything that happens to a ticker, where the miner fee is known. -/
def totalEffect (a : Action) (chain : Option String) (balMap : Balances) (coinTick : Option Tick)
    (feeEstimate : FeeEstimate) (protocolFee : Option ProtocolFee) (tick : Tick) : Option ℚ :=
  (minerEffect coinTick feeEstimate tick).map fun fee =>
    principal a chain balMap coinTick tick + fee + protocolEffect coinTick protocolFee tick

/-- Rows show at most one balance after for each ticker, and it is exact. -/
def ShowsOnePostState (a : Action) (balances : List BalanceLookup) (feeEstimate : FeeEstimate)
    (protocolFee : Option ProtocolFee) (chain : Option String) : Prop :=
  ∀ tick, postStates tick (simulateAction a balances feeEstimate protocolFee chain) = [] ∨
    ∃ e, totalEffect a chain (indexBalances balances (coinTickOf chain balances))
        (coinTickOf chain balances) feeEstimate protocolFee tick = some e ∧
      postStates tick (simulateAction a balances feeEstimate protocolFee chain) =
        [((indexBalances balances (coinTickOf chain balances)).before tick).value + e]

/-! ### When they do -/

/-- An action has a row of its own for a ticker. That of a batch is left out where its balance stays and
is written in its shortest form. -/
def HasOwnRow (a : Action) (chain : Option String) (balMap : Balances) (coinTick : Option Tick)
    (tick : Tick) : Prop :=
  if a.action = "BATCH" then
    (∃ c ∈ a.commands, HasRow balMap chain tick c) ∧
      ¬(account (balMap.before tick).value (commandEffects chain a.commands tick) = 0 ∧
        (balMap.before tick).IsShortest)
  else ∃ e, actionEffect coinTick a.p a.action tick = some e ∧ (e = .reset → (balMap.get tick).isSome)

/-- The miner fee is folded into the own row of the coin: into that of a coin that is sent, and of a batch
whose last command on the coin marks it. -/
def isFolded (a : Action) (chain : Option String) : Bool :=
  if a.action = "BATCH" then (chainTick chain).any (lastIsCoin chain a.commands) else a.action = "SEND"

/-- The own row of the coin stands beside that of the miner fee. -/
def Beside (a : Action) (chain : Option String) (balMap : Balances) (coinTick : Option Tick)
    (tick : Tick) : Prop := HasOwnRow a chain balMap coinTick tick ∧ isFolded a chain = false

/-- A miner fee that is read as the number zero. -/
def droppedMiner : FeeEstimate → ℚ
  | .amount fee => if (numberOf fee).isZero then feeValue fee else 0
  | _ => 0

/-- A protocol fee that is not read as a positive number. -/
def droppedProtocol (fee : ProtocolFee) : ℚ :=
  if (numberOf (str fee.amount)).isPositive then 0 else feeValue (str fee.amount)

/-- What the balance after is off by where it is shown. -/
def off (a : Action) (chain : Option String) (balMap : Balances) (coinTick : Option Tick)
    (feeEstimate : FeeEstimate) (protocolFee : Option ProtocolFee) (tick : Tick) : ℚ :=
  (if a.action = "BATCH" then excess (balMap.before tick).value (commandEffects chain a.commands tick) else 0) +
    (if coinTick = some tick then droppedMiner feeEstimate else 0) +
    protocolFee.elim 0 fun fee => if (upper fee.tick).or coinTick = some tick then droppedProtocol fee else 0

/-- The rows of a ticker are exact. -/
def IsExact (a : Action) (chain : Option String) (balMap : Balances) (coinTick : Option Tick)
    (feeEstimate : FeeEstimate) (protocolFee : Option ProtocolFee) (tick : Tick) : Prop :=
  match minerFeeAt coinTick feeEstimate tick with
  | .free =>
    HasOwnRow a chain balMap coinTick tick ∨ (protocolFeeAt coinTick protocolFee tick).isSome →
      off a chain balMap coinTick feeEstimate protocolFee tick = 0
  | .charged _ => ¬Beside a chain balMap coinTick tick ∧
      off a chain balMap coinTick feeEstimate protocolFee tick = 0
  | .unknown => ¬Beside a chain balMap coinTick tick

/-- The simulation throws: for an amount of the action, for the miner fee, or for the protocol fee, which
is not subtracted from a balance that the miner fee has made unknown. -/
def IsMalformed (a : Action) (chain : Option String) (balMap : Balances) (coinTick : Option Tick)
    (feeEstimate : FeeEstimate) (protocolFee : Option ProtocolFee) : Prop :=
  isBlank a.action ∨ (a.action ≠ "BATCH" ∧ actionMoved a.p a.action = none) ∨
    (∃ coin fee, coinTick = some coin ∧ feeEstimate = .amount fee ∧ fee ≠ "" ∧
      (numberOf fee).isZero = false ∧ unsignedDecimal fee = none) ∨
    ∃ fee paid, protocolFee = some fee ∧ str fee.amount ≠ "" ∧ (numberOf (str fee.amount)).isPositive ∧
      (upper fee.tick).or coinTick = some paid ∧ unsignedDecimal (str fee.amount) = none ∧
      ¬(minerFeeAt coinTick feeEstimate paid = .unknown ∧ ¬Beside a chain balMap coinTick paid)

/-! ### The own rows -/

section OwnRows

variable {a : Action} {chain : Option String} {balMap : Balances} {coinTick : Option Tick}

/-- What the own rows of an action report for a ticker. -/
def ownChange (a : Action) (chain : Option String) (balMap : Balances) (coinTick : Option Tick)
    (tick : Tick) : ℚ :=
  if a.action = "BATCH" then account (balMap.before tick).value (commandEffects chain a.commands tick)
  else (actionEffect coinTick a.p a.action tick).elim 0 (Effect.fromStart (balMap.before tick).value)

/-- The own rows mark the coin. -/
def isMarked (a : Action) (chain : Option String) : Bool :=
  if a.action = "BATCH" then (chainTick chain).any (lastIsCoin chain a.commands) else isCoinMove a.p a.action

theorem isFolded_eq (a : Action) (chain : Option String) :
    isFolded a chain = (isMarked a chain && !isFeeFirst a.action) := by
  rw [isFolded, isMarked]
  by_cases hbatch : a.action = "BATCH"
  · have hfirst : isFeeFirst a.action = false := by simp [isFeeFirst, hbatch]
    rw [if_pos hbatch, if_pos hbatch, hfirst, Bool.not_false, Bool.and_true]
  · rw [if_neg hbatch, if_neg hbatch]
    by_cases hsend : a.action = "SEND"
    · simp [isCoinMove, isFeeFirst, hsend]
    · by_cases hdispenser : a.action = "DISPENSER"
      · simp [isFeeFirst, hdispenser]
      · simp [isCoinMove, hsend, hdispenser]

/-- The rows of an action that is no batch. -/
theorem ownRows_of_single (hbatch : a.action ≠ "BATCH") {own : List Delta}
    (h : ownRows a.p balMap coinTick a.action = some own) :
    OwnRows balMap coinTick (HasOwnRow a chain balMap coinTick) (isMarked a chain)
      (ownChange a chain balMap coinTick) own := by
  have hrows := rowsOf_ownRows h
  have hmarked : isMarked a chain = isCoinMove a.p a.action := if_neg hbatch
  have hchange : ∀ tick, ownChange a chain balMap coinTick tick =
      (actionEffect coinTick a.p a.action tick).elim 0 (Effect.fromStart (balMap.before tick).value) :=
    fun tick => if_neg hbatch
  have hshown : ∀ tick, HasOwnRow a chain balMap coinTick tick ↔
      ∃ e, actionEffect coinTick a.p a.action tick = some e ∧ (e = .reset → (balMap.get tick).isSome) := by
    intro tick
    rw [HasOwnRow, if_neg hbatch]
  refine ⟨hrows.distinct, fun tick => ?_, fun d hd => ?_, fun d hd => ?_, fun d hd => ?_, fun d hd => ?_,
    fun tick hnot => ?_⟩
  · rw [hshown]
    constructor
    · rintro ⟨d, hd, rfl⟩
      obtain ⟨e, he, hrow⟩ := hrows.row d hd
      exact ⟨e, he, hrow.held⟩
    · rintro ⟨e, he, hheld⟩
      exact hrows.complete tick e he hheld
  · obtain ⟨e, -, hrow⟩ := hrows.row d hd
    exact hrow.isFee
  · obtain ⟨e, -, hrow⟩ := hrows.row d hd
    exact hrow.afterUnknown
  · obtain ⟨e, -, hrow⟩ := hrows.row d hd
    rw [hmarked]
    exact hrow.isCoin
  · obtain ⟨e, he, hrow⟩ := hrows.row d hd
    obtain ⟨sum, hafter, hvalue⟩ := hrow.after
    refine ⟨_, hafter, ?_⟩
    rw [hvalue, hchange, he, Option.elim_some, Effect.fromStart, add_sub_cancel]
  · rw [hchange]
    rcases he : actionEffect coinTick a.p a.action tick with _ | e
    · rfl
    · have hrow : ¬∃ d ∈ own, d.tick = tick := by
        rintro ⟨d, hd, rfl⟩
        obtain ⟨e', he', hrow⟩ := hrows.row d hd
        exact hnot ((hshown d.tick).mpr ⟨e', he', hrow.held⟩)
      obtain ⟨rfl, hzero⟩ := hrows.value_eq_zero he hrow
      rw [Option.elim_some, Effect.fromStart_reset, hzero, neg_zero]

/-- The rows of a batch. -/
theorem ownRows_of_batch (hbatch : a.action = "BATCH")
    (hcoin : ∀ tick, chainTick chain = some tick → coinTick = some tick) (aggDeltas : AggDeltas)
    (h : ∀ tick, Aggregated balMap chain tick a.commands (aggDeltas.get tick)) :
    OwnRows balMap coinTick (HasOwnRow a chain balMap coinTick) (isMarked a chain)
      (ownChange a chain balMap coinTick) (aggDeltas.records.filter fun d => d.before ≠ d.after) := by
  have hmarked : isMarked a chain = (chainTick chain).any (lastIsCoin chain a.commands) := if_pos hbatch
  have hchange : ∀ tick, ownChange a chain balMap coinTick tick =
      account (balMap.before tick).value (commandEffects chain a.commands tick) := fun tick => if_pos hbatch
  have hshown : ∀ tick, HasOwnRow a chain balMap coinTick tick ↔
      (∃ c ∈ a.commands, HasRow balMap chain tick c) ∧
        ¬(account (balMap.before tick).value (commandEffects chain a.commands tick) = 0 ∧
          (balMap.before tick).IsShortest) := by
    intro tick
    rw [HasOwnRow, if_pos hbatch]
  have hrow : ∀ d ∈ aggDeltas.records.filter fun d => d.before ≠ d.after,
      AggregatedRow balMap chain d.tick a.commands d ∧ aggDeltas.get d.tick = some d := by
    intro d hd
    have hget := aggDeltas.get_eq_some.mpr ⟨(List.mem_filter.mp hd).1, rfl⟩
    exact ⟨(h d.tick).row d hget, hget⟩
  -- a row ends where it began if its change is zero and the balance is in its shortest form
  have hsame : ∀ d, aggDeltas.get d.tick = some d → (d.before = d.after ↔
      account (balMap.before d.tick).value (commandEffects chain a.commands d.tick) = 0 ∧
        (balMap.before d.tick).IsShortest) := by
    intro d hget
    have hd := (h d.tick).row d hget
    have hsum := (h d.tick).change
    obtain ⟨sum, hafter⟩ := hd.after
    rw [hget, Option.elim_some, Delta.change, hd.before, hafter] at hsum
    rw [hd.before, hafter, Option.some.injEq, eq_formatScaledBigint_iff, ← hsum, and_comm]
    refine and_congr_left fun _ => ?_
    rw [shownValue, shownValue, Option.elim_some, Option.elim_some, sub_eq_zero, eq_comm]
  refine ⟨aggDeltas.distinct.filter _, fun tick => ?_, fun d hd => (hrow d hd).1.isFee,
    fun d hd => (hrow d hd).1.afterUnknown, fun d hd => ?_, fun d hd => ?_, fun tick hnot => ?_⟩
  · rw [hshown, ← (h tick).isSome]
    constructor
    · rintro ⟨d, hd, rfl⟩
      obtain ⟨-, hget⟩ := hrow d hd
      refine ⟨by rw [hget]; rfl, fun hboth => ?_⟩
      exact of_decide_eq_true (List.mem_filter.mp hd).2 ((hsame d hget).mpr hboth)
    · rintro ⟨hsome, hnot⟩
      obtain ⟨d, hget⟩ := Option.isSome_iff_exists.mp hsome
      obtain ⟨hd, rfl⟩ := aggDeltas.get_eq_some.mp hget
      exact ⟨d, List.mem_filter.mpr ⟨hd, decide_eq_true fun heq => hnot ((hsame d hget).mp heq)⟩, rfl⟩
  · rw [(hrow d hd).1.isCoin, hmarked]
    rcases hchain : chainTick chain with _ | coin
    · simp
    · rw [hcoin coin hchain, Option.any_some]
      by_cases heq : coin = d.tick
      · rw [heq]
      · simp [heq]
  · obtain ⟨hd', hget⟩ := hrow d hd
    obtain ⟨sum, hafter⟩ := hd'.after
    have hsum := (h d.tick).change
    rw [hget, Option.elim_some, Delta.change, hd'.before, hafter] at hsum
    refine ⟨_, hafter, ?_⟩
    rw [hchange, ← hsum, shownValue, shownValue, Option.elim_some, Option.elim_some, add_sub_cancel]
  · rw [hchange]
    by_contra hne
    have hnone : ¬∃ c ∈ a.commands, HasRow balMap chain tick c := fun hsome =>
      hnot ((hshown tick).mpr ⟨hsome, fun hboth => hne hboth.1⟩)
    have hget : aggDeltas.get tick = none := by
      rw [← Option.not_isSome_iff_eq_none, (h tick).isSome]
      exact hnone
    have hsum := (h tick).change
    rw [hget] at hsum
    exact hne hsum.symm

/-- **An action's rows are its own rows and the miner fee.** -/
theorem simulateBody_eq (feeEstimate : FeeEstimate)
    (hcoin : ∀ tick, chainTick chain = some tick → coinTick = some tick)
    (hwell : ¬(a.action ≠ "BATCH" ∧ actionMoved a.p a.action = none)) :
    ∃ own, OwnRows balMap coinTick (HasOwnRow a chain balMap coinTick) (isMarked a chain)
        (ownChange a chain balMap coinTick) own ∧
      simulateBody a feeEstimate chain balMap coinTick =
        feeBody (isFeeFirst a.action) own balMap coinTick feeEstimate := by
  rw [simulateBody]
  by_cases hbatch : a.action = "BATCH"
  · have hfirst : isFeeFirst a.action = false := by simp [isFeeFirst, hbatch]
    rw [if_pos hbatch, hfirst, simulateBatch]
    by_cases hempty : a.commands = []
    · refine ⟨_, ownRows_of_batch hbatch hcoin .empty fun tick => ?_, ?_⟩
      · rw [hempty]
        exact Aggregated.nil
      · rw [if_pos hempty]
        rfl
    · obtain ⟨aggDeltas, hfold, hall⟩ := aggregated_commands [] a.commands .empty fun _ => Aggregated.nil
      refine ⟨_, ownRows_of_batch hbatch hcoin aggDeltas hall, ?_⟩
      rw [if_neg hempty, hfold]
      rfl
  · rw [if_neg hbatch, simulateSingle_eq]
    have hsome : ownRows a.p balMap coinTick a.action ≠ none := by
      rw [ownRows]
      split
      · exact Option.some_ne_none _
      · exact fun hnone => hwell ⟨hbatch, Option.map_eq_none_iff.mp hnone⟩
    obtain ⟨own, hown⟩ := Option.ne_none_iff_exists'.mp hsome
    exact ⟨own, ownRows_of_single hbatch hown, by rw [hown]; rfl⟩

end OwnRows

/-! ### What is shown -/

section Shown

variable {a : Action} {chain : Option String} {balMap : Balances} {coinTick : Option Tick}
  {feeEstimate : FeeEstimate} {protocolFee : Option ProtocolFee} {tick : Tick}

/-- What the rows report is off by the sweeps of a batch. -/
theorem ownChange_eq (a : Action) (chain : Option String) (balMap : Balances) (coinTick : Option Tick)
    (tick : Tick) :
    ownChange a chain balMap coinTick tick = principal a chain balMap coinTick tick +
      if a.action = "BATCH" then excess (balMap.before tick).value (commandEffects chain a.commands tick)
      else 0 := by
  rw [ownChange, principal]
  by_cases hbatch : a.action = "BATCH"
  · rw [if_pos hbatch, if_pos hbatch, if_pos hbatch, changeInOrder, value_simulateInOrder, account_eq]
  · rw [if_neg hbatch, if_neg hbatch, if_neg hbatch, add_zero]

/-- The protocol fee that is taken off is the fee, or it is dropped. -/
theorem protocolEffect_eq (coinTick : Option Tick) (protocolFee : Option ProtocolFee) (tick : Tick) :
    -(protocolFeeAt coinTick protocolFee tick).getD 0 = protocolEffect coinTick protocolFee tick +
      protocolFee.elim 0 fun fee =>
        if (upper fee.tick).or coinTick = some tick then droppedProtocol fee else 0 := by
  rcases protocolFee with _ | fee
  · simp [protocolFeeAt, protocolEffect]
  · rw [protocolFeeAt, protocolEffect, Option.bind_some, Option.elim_some, Option.elim_some, droppedProtocol]
    by_cases hempty : str fee.amount = ""
    · have hvalue : feeValue "" = 0 := by
        have hnone : unsignedDecimal "" = none := by decide
        rw [feeValue, hnone]
        rfl
      have hpositive : (numberOf "").isPositive = false := by decide +kernel
      rw [if_pos (.inl hempty), hempty, hvalue, hpositive]
      simp
    · by_cases hpositive : (numberOf (str fee.amount)).isPositive
      · rw [if_neg (not_or.mpr ⟨hempty, not_not.mpr hpositive⟩), if_pos hpositive]
        split <;> simp
      · rw [if_pos (.inr hpositive), if_neg hpositive]
        split <;> simp

/-- The miner fee that is taken off is the fee, or it is dropped. -/
theorem minerEffect_eq {fee : ℚ} (h : minerEffect coinTick feeEstimate tick = some fee) :
    (minerFeeAt coinTick feeEstimate tick = .free ∧
        fee + (if coinTick = some tick then droppedMiner feeEstimate else 0) = 0) ∨
      ∃ charged, minerFeeAt coinTick feeEstimate tick = .charged charged ∧
        fee + (if coinTick = some tick then droppedMiner feeEstimate else 0) = -charged := by
  rw [minerEffect] at h
  rw [minerFeeAt]
  by_cases hcoin : coinTick = some tick
  · rw [if_pos hcoin] at h
    rw [if_pos hcoin, if_pos hcoin]
    rcases feeEstimate with _ | _ | amount
    · cases h
      exact .inl ⟨rfl, by simp [droppedMiner]⟩
    · cases h
    · obtain ⟨⟩ := h
      rw [minerFee, droppedMiner]
      by_cases hempty : amount = ""
      · have hzero : (numberOf "").isZero := by decide +kernel
        rw [if_pos (.inl hempty), hempty, if_pos hzero]
        exact .inl ⟨rfl, neg_add_cancel _⟩
      · by_cases hzero : (numberOf amount).isZero
        · rw [if_pos (.inr hzero), if_pos hzero]
          exact .inl ⟨rfl, neg_add_cancel _⟩
        · rw [if_neg (not_or.mpr ⟨hempty, hzero⟩), if_neg hzero]
          exact .inr ⟨_, rfl, add_zero _⟩
  · rw [if_neg hcoin] at h
    obtain ⟨⟩ := h
    rw [if_neg hcoin, if_neg hcoin]
    exact .inl ⟨rfl, add_zero _⟩

theorem minerEffect_eq_none (h : minerEffect coinTick feeEstimate tick = none) :
    minerFeeAt coinTick feeEstimate tick = .unknown := by
  rw [minerEffect] at h
  rw [minerFeeAt]
  split at h
  · next hcoin =>
    rw [if_pos hcoin]
    rcases feeEstimate with _ | _ | amount
    · cases h
    · rfl
    · cases h
  · cases h

/-- **What is shown of a ticker is exact where `IsExact` says so.** -/
theorem shows_iff_isExact {states : States} {values : List ℚ} {shown : Bool}
    (hshown : shown ↔ HasOwnRow a chain balMap coinTick tick)
    (hzero : ¬HasOwnRow a chain balMap coinTick tick → ownChange a chain balMap coinTick tick = 0)
    (hstates : states = minerStates (balMap.before tick).value (ownChange a chain balMap coinTick tick) shown
      (isFolded a chain) (minerFeeAt coinTick feeEstimate tick))
    (hvalues : (states.pay (balMap.before tick).value (protocolFeeAt coinTick protocolFee tick)).Shows values) :
    (values = [] ∨ ∃ e, totalEffect a chain balMap coinTick feeEstimate protocolFee tick = some e ∧
        values = [(balMap.before tick).value + e]) ↔
      IsExact a chain balMap coinTick feeEstimate protocolFee tick := by
  rw [IsExact]
  rcases hminer : minerEffect coinTick feeEstimate tick with _ | fee
  · -- the miner fee is not known: a balance after that is shown leaves it out
    have htotal : totalEffect a chain balMap coinTick feeEstimate protocolFee tick = none := by
      rw [totalEffect, hminer]
      rfl
    rw [minerEffect_eq_none hminer] at hstates ⊢
    rw [htotal]
    by_cases hbeside : shown ∧ ¬isFolded a chain
    · rw [minerStates, if_pos hbeside] at hstates
      have hsome : ∃ value, values = [value] := by
        rw [hstates] at hvalues
        rcases hpaid : protocolFeeAt coinTick protocolFee tick with _ | paid
        · rw [hpaid] at hvalues
          exact ⟨_, hvalues⟩
        · rw [hpaid] at hvalues
          exact ⟨_, hvalues⟩
      obtain ⟨value, rfl⟩ := hsome
      refine iff_of_false ?_ fun h => h ⟨hshown.mp hbeside.1, Bool.eq_false_iff.mpr hbeside.2⟩
      rintro (hnil | ⟨e, he, -⟩)
      · cases hnil
      · cases he
    · rw [minerStates, if_neg hbeside] at hstates
      have hnil : values = [] := by
        rw [hstates] at hvalues
        rcases hpaid : protocolFeeAt coinTick protocolFee tick with _ | paid
        · rw [hpaid] at hvalues
          exact hvalues
        · rw [hpaid] at hvalues
          exact hvalues
      refine iff_of_true (.inl hnil) fun h => hbeside ⟨hshown.mpr h.1, ?_⟩
      exact Bool.eq_false_iff.mp h.2
  · have htotal : totalEffect a chain balMap coinTick feeEstimate protocolFee tick =
        some (principal a chain balMap coinTick tick + fee + protocolEffect coinTick protocolFee tick) := by
      rw [totalEffect, hminer]
      rfl
    have hown := ownChange_eq a chain balMap coinTick tick
    have hprotocol := protocolEffect_eq coinTick protocolFee tick
    -- one balance after is exact if nothing is off
    have hone : ∀ charged : ℚ,
        fee + (if coinTick = some tick then droppedMiner feeEstimate else 0) = -charged →
        values = [(balMap.before tick).value + ownChange a chain balMap coinTick tick - charged -
          (protocolFeeAt coinTick protocolFee tick).getD 0] →
        ((values = [] ∨ ∃ e, totalEffect a chain balMap coinTick feeEstimate protocolFee tick = some e ∧
            values = [(balMap.before tick).value + e]) ↔
          off a chain balMap coinTick feeEstimate protocolFee tick = 0) := by
      intro charged hcharged hone
      rw [hone, htotal, off]
      simp only [List.cons_ne_nil, false_or, Option.some.injEq, exists_eq_left', List.cons.injEq, and_true]
      constructor
      · intro h
        linarith
      · intro h
        linarith
    rcases minerEffect_eq hminer with ⟨hfree, hdropped⟩ | ⟨charged, hfee, hdropped⟩
    · rw [hfree] at hstates ⊢
      have hcharged := hone 0 (by rw [hdropped, neg_zero])
      rw [minerStates] at hstates
      by_cases hyes : shown
      · rw [if_pos hyes] at hstates
        have hvalue : values = [(balMap.before tick).value + ownChange a chain balMap coinTick tick - 0 -
            (protocolFeeAt coinTick protocolFee tick).getD 0] := by
          rw [hstates] at hvalues
          rcases hpaid : protocolFeeAt coinTick protocolFee tick with _ | paid
          · rw [hpaid] at hvalues
            rw [Option.getD_none, sub_zero, sub_zero]
            exact hvalues
          · rw [hpaid] at hvalues
            rw [Option.getD_some, sub_zero]
            exact hvalues
        rw [hcharged hvalue]
        exact ⟨fun h _ => h, fun h => h (.inl (hshown.mp hyes))⟩
      · rw [if_neg hyes] at hstates
        have hnot := mt hshown.mpr hyes
        rcases hpaid : protocolFeeAt coinTick protocolFee tick with _ | paid
        · rw [hstates, hpaid] at hvalues
          refine iff_of_true (.inl hvalues) ?_
          rintro (h | h)
          · exact absurd h hnot
          · cases h
        · rw [hstates, hpaid] at hvalues
          rw [hcharged (by rw [hzero hnot, add_zero, sub_zero, hpaid]; exact hvalues)]
          exact ⟨fun h _ => h, fun h => h (.inr rfl)⟩
    · rw [hfee] at hstates ⊢
      have hcharged := hone charged hdropped
      by_cases hbeside : shown ∧ isFolded a chain = false
      · have htwice : states = .twice := by
          rw [hstates, hbeside.1, hbeside.2]
          rfl
        rw [htwice] at hvalues
        have hlength : values.length = 2 := by
          rcases hpaid : protocolFeeAt coinTick protocolFee tick with _ | paid
          · rw [hpaid] at hvalues
            exact hvalues
          · rw [hpaid] at hvalues
            exact hvalues
        refine iff_of_false ?_ fun h => h.1 ⟨hshown.mp hbeside.1, hbeside.2⟩
        rintro (rfl | ⟨e, -, rfl⟩)
        · cases hlength
        · cases hlength
      · have honce : states =
            .once ((balMap.before tick).value + ownChange a chain balMap coinTick tick - charged) := by
          rw [hstates, minerStates]
          by_cases hyes : shown
          · have hfolded : isFolded a chain = true := by
              by_contra hnot
              exact hbeside ⟨hyes, Bool.eq_false_iff.mpr hnot⟩
            rw [if_neg (not_not.mpr hyes), if_pos hfolded]
          · rw [if_pos hyes, hzero (mt hshown.mpr hyes), add_zero]
        have hvalue : values = [(balMap.before tick).value + ownChange a chain balMap coinTick tick -
            charged - (protocolFeeAt coinTick protocolFee tick).getD 0] := by
          rw [honce] at hvalues
          rcases hpaid : protocolFeeAt coinTick protocolFee tick with _ | paid
          · rw [hpaid] at hvalues
            rw [Option.getD_none, sub_zero]
            exact hvalues
          · rw [hpaid] at hvalues
            exact hvalues
        rw [hcharged hvalue]
        exact ⟨fun h => ⟨fun hb => hbeside ⟨hshown.mpr hb.1, hb.2⟩, h⟩, And.right⟩

end Shown

/-! ### The simulation -/

theorem minerStates_eq_hidden {before change : ℚ} {shown folded : Bool} {fee : FeeAt} :
    minerStates before change shown folded fee = .hidden ↔ fee = .unknown ∧ ¬(shown ∧ folded = false) := by
  rcases fee with _ | charged | _
  · rcases shown <;> simp [minerStates]
  · rcases shown <;> rcases folded <;> simp [minerStates]
  · rcases shown <;> rcases folded <;> simp [minerStates]

/-- **Where `simulateAction` shows one exact post-state for each ticker.** A ticker is exact where its
balance could not be read, or by `IsExact`; a malformed simulation shows nothing. -/
theorem simulateAction_shows_iff (a : Action) (balances : List BalanceLookup) (feeEstimate : FeeEstimate)
    (protocolFee : Option ProtocolFee) (chain : Option String) :
    ShowsOnePostState a balances feeEstimate protocolFee chain ↔
      IsMalformed a chain (indexBalances balances (coinTickOf chain balances)) (coinTickOf chain balances)
          feeEstimate protocolFee ∨
        ∀ tick, (∃ b ∈ balances, b.unknown ∧ unknownTick (coinTickOf chain balances) b = some tick) ∨
          IsExact a chain (indexBalances balances (coinTickOf chain balances)) (coinTickOf chain balances)
            feeEstimate protocolFee tick := by
  obtain ⟨coinTick, hcoinTick⟩ : ∃ coinTick, coinTickOf chain balances = coinTick := ⟨_, rfl⟩
  obtain ⟨balMap, hbalMap⟩ : ∃ balMap, indexBalances balances coinTick = balMap := ⟨_, rfl⟩
  have hcoin : ∀ tick, chainTick chain = some tick → coinTick = some tick := by
    intro tick htick
    rw [← hcoinTick]
    exact congrArg (Option.or · (inferCoinTick balances)) htick
  have hdata : simulateActionData (simulateBody a feeEstimate chain) balances protocolFee chain =
      (simulateBody a feeEstimate chain balMap coinTick).bind fun deltas =>
        (applyProtocolFee deltas balMap coinTick protocolFee).map fun deltas =>
          blankUnknownBalances deltas balances coinTick := by
    rw [simulateActionData, hcoinTick, hbalMap]
    rcases simulateBody a feeEstimate chain balMap coinTick with _ | deltas
    · rfl
    · rcases hpaid : applyProtocolFee deltas balMap coinTick protocolFee with _ | rows
      · simp [hpaid]
      · simp [hpaid]
  rw [ShowsOnePostState, hcoinTick, hbalMap]
  -- where the simulation throws there are no rows
  have hthrows : simulateAction a balances feeEstimate protocolFee chain = [] →
      IsMalformed a chain balMap coinTick feeEstimate protocolFee →
      ((∀ tick, postStates tick (simulateAction a balances feeEstimate protocolFee chain) = [] ∨
        ∃ e, totalEffect a chain balMap coinTick feeEstimate protocolFee tick = some e ∧
          postStates tick (simulateAction a balances feeEstimate protocolFee chain) =
            [(balMap.before tick).value + e]) ↔
        IsMalformed a chain balMap coinTick feeEstimate protocolFee ∨
          ∀ tick, (∃ b ∈ balances, b.unknown ∧ unknownTick coinTick b = some tick) ∨
            IsExact a chain balMap coinTick feeEstimate protocolFee tick) := by
    intro hnil hmalformed
    rw [hnil]
    exact iff_of_true (fun tick => .inl rfl) (.inl hmalformed)
  by_cases hblank : isBlank a.action
  · exact hthrows (by rw [simulateAction, if_pos hblank]) (.inl hblank)
  rw [simulateAction, if_neg hblank, hdata] at hthrows ⊢
  by_cases hmove : a.action ≠ "BATCH" ∧ actionMoved a.p a.action = none
  · have hnone : simulateBody a feeEstimate chain balMap coinTick = none := by
      have hown : ownRows a.p balMap coinTick a.action = none := by
        have hsweep : a.action ≠ "SWEEP" := fun hsweep => by simp [actionMoved, hsweep] at hmove
        rw [ownRows, if_neg hsweep, hmove.2]
        rfl
      rw [simulateBody, if_neg hmove.1, simulateSingle_eq, hown]
      rfl
    exact hthrows (by rw [hnone]; rfl) (.inr (.inl hmove))
  obtain ⟨own, hown, hbody⟩ := simulateBody_eq feeEstimate hcoin hmove
  rw [hbody] at hthrows ⊢
  rcases hfees : feeBody (isFeeFirst a.action) own balMap coinTick feeEstimate with _ | deltas
  · rw [hfees] at hthrows
    refine hthrows rfl (.inr (.inr (.inl ?_)))
    rw [feeBody] at hfees
    split at hfees
    · exact (pushFeeRow_eq_none balMap feeEstimate []).mp (Option.map_eq_none_iff.mp hfees)
    · exact (pushFeeRow_eq_none balMap feeEstimate own).mp hfees
  rw [hfees, Option.bind_some] at hthrows
  rw [Option.bind_some]
  -- how each ticker is shown with the miner fee
  have hshown : ∀ tick, ∃ shown : Bool, shown = true ↔ HasOwnRow a chain balMap coinTick tick := by
    intro tick
    by_cases h : HasOwnRow a chain balMap coinTick tick
    · exact ⟨true, iff_of_true rfl h⟩
    · exact ⟨false, iff_of_false Bool.false_ne_true h⟩
  choose shown hshown using hshown
  have hstates := fun tick => hown.holds_feeBody hfees tick (hshown tick)
  simp only [← isFolded_eq] at hstates
  have hpaid := applyProtocolFee_eq_none balMap coinTick protocolFee hstates
  rcases happly : applyProtocolFee deltas balMap coinTick protocolFee with _ | rows
  · rw [happly] at hthrows
    refine hthrows rfl (.inr (.inr (.inr ?_)))
    obtain ⟨fee, paid, hfee, hne, hpositive, htick, hdecimal, hhidden⟩ := hpaid.mp happly
    refine ⟨fee, paid, hfee, hne, hpositive, htick, hdecimal, fun h => hhidden ?_⟩
    refine minerStates_eq_hidden.mpr ⟨h.1, fun hb => h.2 ⟨(hshown paid).mp hb.1, hb.2⟩⟩
  have hwell : ¬IsMalformed a chain balMap coinTick feeEstimate protocolFee := by
    rintro (h | h | h | ⟨fee, paid, hfee, hne, hpositive, htick, hdecimal, hnot⟩)
    · exact hblank h
    · exact hmove h
    · have hnone : feeBody (isFeeFirst a.action) own balMap coinTick feeEstimate = none := by
        rw [feeBody]
        split
        · rw [(pushFeeRow_eq_none balMap feeEstimate []).mpr h]
          rfl
        · exact (pushFeeRow_eq_none balMap feeEstimate own).mpr h
      rw [hnone] at hfees
      cases hfees
    · have hnone := hpaid.mpr ⟨fee, paid, hfee, hne, hpositive, htick, hdecimal, fun hhidden => hnot ?_⟩
      · rw [hnone] at happly
        cases happly
      · obtain ⟨hunknown, hbeside⟩ := minerStates_eq_hidden.mp hhidden
        exact ⟨hunknown, fun hb => hbeside ⟨(hshown paid).mpr hb.1, hb.2⟩⟩
  rw [or_iff_right hwell, Option.map_some, Option.getD_some]
  refine forall_congr' fun tick => ?_
  obtain ⟨hblanked, hkept⟩ := postStates_blankUnknownBalances rows balances coinTick tick
  by_cases hunread : ∃ b ∈ balances, b.unknown ∧ unknownTick coinTick b = some tick
  · exact iff_of_true (.inl (hblanked hunread)) (.inl hunread)
  · rw [or_iff_right hunread, hkept hunread]
    exact shows_iff_isExact (hshown tick) (hown.change_eq_zero tick) rfl
      (shows_applyProtocolFee (hstates tick) happly)

private def coinDispenser : Action :=
  { action := "DISPENSER", commands := []
    p := fun key => if key = "GIVE_TICK" then some "BTC" else if key = "GIVE_ESCROW" then some "0.5" else none }

private theorem isDecimal_one : IsDecimal "1".toList := by decide

private def oneCoin : List BalanceLookup := [⟨"BTC", some ⟨"1", isDecimal_one⟩, true, false⟩]

/-- A dispenser that locks half a coin shows the coin twice: with the fee off, and with the escrow off. -/
theorem not_simulateAction_shows : ¬∀ a balances feeEstimate protocolFee chain,
    ShowsOnePostState a balances feeEstimate protocolFee chain := by
  intro h
  have hlength : (postStates ⟨"BTC", by decide, by decide⟩
      (simulateAction coinDispenser oneCoin (.amount "0.01") none (some "bitcoin"))).length = 2 := by
    decide +kernel
  rcases h coinDispenser oneCoin (.amount "0.01") none (some "bitcoin") ⟨"BTC", by decide, by decide⟩ with
    hnil | ⟨e, -, hone⟩
  · rw [hnil] at hlength
    cases hlength
  · rw [hone] at hlength
    cases hlength

end XchainWallet.TxSimulator
