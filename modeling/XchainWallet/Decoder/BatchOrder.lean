import XchainWallet.Decoder.ActionRows

/-!
# A batch against its commands one after another

A batch simulates every command on the balances from before it and adds up the changes, so a sweep takes
the whole starting balance whatever the commands before it have moved. Simulating the commands one after
another instead, each on the balances that the one before leaves, gives other changes in exactly the
cases that `simulateBatch_reports_iff` names.
-/

namespace XchainWallet.TxSimulator

open Json Transition
open Option (elim_some map_some some.injEq)
open List (any_cons any_nil nil_append)

/-! ### Changes -/

/-- What a balance in a row is worth; an empty one is zero. -/
def shownValue (balance : Option DecimalText) : ℚ := balance.elim 0 DecimalText.value

def Delta.change (d : Delta) : ℚ := shownValue d.after - shownValue d.before

/-- The change that rows report for a ticker, none where a balance after is not known. -/
def changeOf (tick : Tick) (deltas : List Delta) : Option ℚ :=
  if deltas.any fun d => d.tick = tick ∧ d.afterUnknown then none
  else some ((deltas.filter (·.tick = tick)).map Delta.change).sum

/-- The balances with the rows' balances after in the place of those before. -/
def settle (balMap : Balances) (deltas : List Delta) : Balances :=
  deltas.foldl (fun m d => d.after.elim m fun after => m.put (d.tick, after)) balMap

/-- The commands one after another, each on the results of the one before. -/
def simulateInOrder (chain : Option String) (commands : List Command) (balMap : Balances) : Balances :=
  commands.foldl (fun m c => settle m (simulateCommand chain m c)) balMap

/-- The change of a ticker when the commands are simulated one after another. -/
def changeInOrder (chain : Option String) (commands : List Command) (balMap : Balances) (tick : Tick) : ℚ :=
  ((simulateInOrder chain commands balMap).before tick).value - (balMap.before tick).value

/-- A batch reports the changes of its commands one after another, and the fee once. -/
def ReportsInOrder (commands : List Command) (balMap : Balances) (coinTick : Option Tick)
    (feeEstimate : FeeEstimate) (chain : Option String) : Prop :=
  ∀ tick, (simulateBatch commands balMap coinTick feeEstimate chain).map (changeOf tick) =
    (pushFeeRow [] balMap coinTick feeEstimate).map fun fees =>
      (changeOf tick fees).map (· + changeInOrder chain commands balMap tick)

/-! ### What a command does to a ticker -/

/-- The coin of the chain that the commands are simulated on. -/
def chainTick (chain : Option String) : Option Tick :=
  chain.bind fun coin => Tick.ofText ((protocolCoinTicker coin).getD coin)

def commandEffect (chain : Option String) (tick : Tick) : Command → Option (Effect ℚ)
  | .malformed => none
  | .of action p =>
    if isBlank action ∨ action = "BATCH" then none else actionEffect (chainTick chain) p action tick

def commandEffects (chain : Option String) (commands : List Command) (tick : Tick) : List (Effect ℚ) :=
  commands.filterMap (commandEffect chain tick)

def commandIsCoin : Command → Bool
  | .malformed => false
  | .of action p => isCoinMove p action

theorem commandEffects_append (chain : Option String) (commands more : List Command) (tick : Tick) :
    commandEffects chain (commands ++ more) tick =
      commandEffects chain commands tick ++ commandEffects chain more tick :=
  List.filterMap_append

theorem commandEffects_singleton (chain : Option String) (c : Command) (tick : Tick) :
    commandEffects chain [c] tick = (commandEffect chain tick c).toList := by
  rw [commandEffects, List.filterMap_cons]
  rcases commandEffect chain tick c <;> rfl

section Commands

variable {balMap : Balances} {chain : Option String}

theorem before_put (balMap : Balances) (tick tick' : Tick) (amount : DecimalText) :
    Balances.before (balMap.put (tick, amount)) tick' =
      if tick' = tick then amount else balMap.before tick' := by
  rw [Balances.before, Balances.amount, Keyed.Table.get_put]
  split <;> rfl

@[simp]
theorem before_addCoin (balMap : Balances) (coin : Option Tick) (tick : Tick) :
    (addCoin balMap coin).before tick = balMap.before tick := by
  rcases coin with _ | coin
  · rfl
  · rw [addCoin]
    split
    · rfl
    · next hnone =>
      rw [before_put]
      split
      · next heq => rw [heq, before_of_get_eq_none (by simpa using hnone)]
      · rfl

theorem inferCoinTick_balancesFromMap (balMap : Balances) :
    inferCoinTick (balancesFromMap balMap) = none := by
  have hnone : (balancesFromMap balMap).find? BalanceLookup.isCoin = none := by
    refine List.find?_eq_none.mpr fun b hb => ?_
    obtain ⟨entry, -, rfl⟩ := List.mem_map.mp hb
    exact Bool.false_ne_true
  rw [inferCoinTick, hnone]
  rfl

theorem indexBalances_balancesFromMap (balMap : Balances) (coin : Option Tick) :
    indexBalances (balancesFromMap balMap) coin = addCoin balMap coin := by
  have hentry : ∀ (m : Balances) (entry : Tick × DecimalText),
      indexBalance m ⟨entry.1.text, some entry.2, false, false⟩ = m.put entry := by
    intro m entry
    rw [indexBalance, Tick.ofText_text]
    rfl
  rw [indexBalances, balancesFromMap, List.foldl_map]
  simp only [hentry]
  exact congrArg (addCoin · coin) balMap.foldl_put_records

theorem unknownTicks_balancesFromMap (balMap : Balances) (coin : Option Tick) :
    unknownTicks (balancesFromMap balMap) coin = .empty := by
  have hnone : (balancesFromMap balMap).filter BalanceLookup.unknown = [] := by
    refine List.filter_eq_nil_iff.mpr fun b hb => ?_
    obtain ⟨entry, -, rfl⟩ := List.mem_map.mp hb
    exact Bool.false_ne_true
  rw [unknownTicks, hnone]
  rfl

/-- The fee `0` has no row. -/
@[simp]
theorem pushFeeRow_zero (deltas : List Delta) (m : Balances) (coinTick : Option Tick) :
    pushFeeRow deltas m coinTick (.amount "0") = some deltas := by
  have hzero : (numberOf "0").isZero = true := by decide +kernel
  rcases coinTick with _ | coin
  · rfl
  · rw [pushFeeRow, if_pos (.inr hzero)]

/-- The coin that is added has the balance zero, and a sweep leaves it. -/
theorem ownRows_addCoin (p : Fields) (balMap : Balances) (coin : Option Tick) (action : String) :
    ownRows p (addCoin balMap coin) coin action = ownRows p balMap coin action := by
  have hsweep : sweepRows (addCoin balMap coin) coin = sweepRows balMap coin := by
    rcases coin with _ | coin
    · rfl
    · rw [addCoin]
      split
      · rfl
      · next hnone =>
        have hfresh : ∀ entry ∈ balMap.records, entry.1 ≠ coin :=
          balMap.get_eq_none.mp (by simpa using hnone)
        have hput : (balMap.put (coin, zero)).records = balMap.records ++ [(coin, zero)] :=
          Keyed.upsert_eq_append hfresh
        rw [sweepRows, hput, List.filter_append, List.map_append]
        simp [sweepRows]
  rw [ownRows, ownRows, hsweep]
  simp only [movedRow, deltaRow, before_addCoin]

/-- A command is projected on the snapshot, with the chain's coin among the balances. -/
theorem simulateCommand_of {action : String} {p : Fields} (h : ¬(isBlank action ∨ action = "BATCH")) :
    simulateCommand chain balMap (.of action p) = (ownRows p balMap (chainTick chain) action).getD [] := by
  have hcoin : coinTickOf chain (balancesFromMap balMap) = chainTick chain := by
    rw [coinTickOf, inferCoinTick_balancesFromMap, Option.or_none]
    rfl
  rw [simulateCommand, if_neg h, simulateActionData]
  simp only [hcoin, indexBalances_balancesFromMap, applyProtocolFee, blankUnknownBalances,
    unknownTicks_balancesFromMap, simulateSingle_eq, ownRows_addCoin, pushFeeRow_zero, map_some,
    nil_append, ite_self]
  rcases ownRows p balMap (chainTick chain) action <;> rfl

/-- **The rows of a command.** -/
theorem rowsOf_simulateCommand (chain : Option String) (balMap : Balances) (c : Command) :
    RowsOf balMap (chainTick chain) (commandIsCoin c) (fun tick => commandEffect chain tick c)
      (simulateCommand chain balMap c) := by
  rcases c with _ | ⟨action, p⟩
  · exact RowsOf.nil _
  · by_cases hskip : isBlank action ∨ action = "BATCH"
    · simp only [commandEffect, simulateCommand, if_pos hskip]
      exact RowsOf.nil _
    · rw [simulateCommand_of hskip]
      simp only [commandEffect, if_neg hskip]
      rcases hown : ownRows p balMap (chainTick chain) action with _ | own
      · simp only [actionEffect_of_malformed hown]
        exact RowsOf.nil _
      · exact rowsOf_ownRows hown

end Commands

/-! ### One after another -/

section Order

variable {balMap : Balances} {coinTick : Option Tick} {isCoin : Bool} {effect : Tick → Option (Effect ℚ)}
  {deltas : List Delta} {tick : Tick}

theorem before_settle_of_not_mem (h : ∀ d ∈ deltas, d.tick ≠ tick) :
    (settle balMap deltas).before tick = balMap.before tick := by
  induction deltas generalizing balMap with
  | nil => rfl
  | cons d deltas ih =>
    have hrest := fun d' hd' => h d' (.tail d hd')
    rw [settle, List.foldl_cons]
    refine (ih hrest).trans ?_
    rcases d.after with _ | after
    · rfl
    · exact (before_put ..).trans (if_neg (h d (.head _)).symm)

theorem before_settle_of_mem (hdistinct : Keyed.Distinct Delta.tick deltas) {d : Delta} (hd : d ∈ deltas)
    {after : DecimalText} (hafter : d.after = some after) : (settle balMap deltas).before d.tick = after := by
  induction deltas generalizing balMap with
  | nil => exact absurd hd List.not_mem_nil
  | cons d' deltas ih =>
    obtain ⟨hfresh, hrest⟩ := hdistinct.cons
    rw [settle, List.foldl_cons]
    rcases List.mem_cons.mp hd with rfl | hmem
    · refine (before_settle_of_not_mem hfresh).trans ?_
      rw [hafter]
      exact (before_put ..).trans (if_pos rfl)
    · exact ih hrest hmem

/-- An effect without a row is a sweep of nothing. -/
theorem RowsOf.value_eq_zero (h : RowsOf balMap coinTick isCoin effect deltas) {e : Effect ℚ}
    (he : effect tick = some e) (hrow : ¬∃ d ∈ deltas, d.tick = tick) :
    e = .reset ∧ (balMap.before tick).value = 0 := by
  have hheld := mt (h.complete tick e he) hrow
  obtain ⟨hreset, hnone⟩ := Classical.not_imp.mp hheld
  refine ⟨hreset, ?_⟩
  rw [before_of_get_eq_none (by simpa using hnone), value_zero]

/-- A command's rows take the balances through its effects. -/
theorem RowsOf.value_settle (h : RowsOf balMap coinTick isCoin effect deltas) (tick : Tick) :
    ((settle balMap deltas).before tick).value =
      (effect tick).elim (balMap.before tick).value (Effect.apply (balMap.before tick).value) := by
  by_cases hrow : ∃ d ∈ deltas, d.tick = tick
  · obtain ⟨d, hd, rfl⟩ := hrow
    obtain ⟨e, heffect, hrow⟩ := h.row d hd
    obtain ⟨sum, hafter, hvalue⟩ := hrow.after
    rw [before_settle_of_mem h.distinct hd hafter, heffect, hvalue]
    rfl
  · rw [before_settle_of_not_mem fun d hd htick => hrow ⟨d, hd, htick⟩]
    rcases heffect : effect tick with _ | e
    · rfl
    · obtain ⟨rfl, hzero⟩ := h.value_eq_zero heffect hrow
      exact hzero

/-- **The commands one after another run through their effects.** -/
theorem value_simulateInOrder (chain : Option String) (commands : List Command) (balMap : Balances)
    (tick : Tick) : ((simulateInOrder chain commands balMap).before tick).value =
      Effect.run (balMap.before tick).value (commandEffects chain commands tick) := by
  induction commands generalizing balMap with
  | nil => rfl
  | cons c commands ih =>
    have hstep := (rowsOf_simulateCommand chain balMap c).value_settle tick
    have hrest := ih (settle balMap (simulateCommand chain balMap c))
    rw [hstep] at hrest
    rw [simulateInOrder, List.foldl_cons]
    refine hrest.trans ?_
    rw [← List.singleton_append, commandEffects_append, commandEffects_singleton]
    rcases commandEffect chain tick c <;> rfl

end Order

/-! ### All on one snapshot -/

section Snapshot

variable {balMap : Balances} {chain : Option String} {deltas : List Delta} {tick : Tick}

/-- What the rows of some effects add up to. A row after the first one loses what a balance below zero
is away from its own size. -/
def account (start : ℚ) (es : List (Effect ℚ)) : ℚ :=
  (es.map (Effect.fromStart start)).sum + (es.length - 1) • (start - |start|)

/-- A command has a row of a ticker, unless it sweeps nothing. -/
def HasRow (balMap : Balances) (chain : Option String) (tick : Tick) (c : Command) : Prop :=
  ∃ e, commandEffect chain tick c = some e ∧ (e = .reset → (balMap.get tick).isSome)

/-- The mark of a ticker's row, which is the one of the last command that has an effect on it. -/
def lastIsCoin (chain : Option String) (commands : List Command) (tick : Tick) : Bool :=
  ((commands.filter fun c => (commandEffect chain tick c).isSome).getLast?).any commandIsCoin

/-- What is so of a ticker's row after some commands. -/
structure AggregatedRow (balMap : Balances) (chain : Option String) (tick : Tick) (commands : List Command)
    (d : Delta) : Prop where
  isFee : d.isFee = false
  afterUnknown : d.afterUnknown = false
  before : d.before = some (balMap.before tick)
  isCoin : d.isCoin = (lastIsCoin chain commands tick && decide (chainTick chain = some tick))
  after : ∃ sum, d.after = some (formatScaledBigint sum)

/-- The row of a ticker after some commands, where it has one. -/
structure Aggregated (balMap : Balances) (chain : Option String) (tick : Tick) (commands : List Command)
    (cur : Option Delta) : Prop where
  change : cur.elim 0 Delta.change = account (balMap.before tick).value (commandEffects chain commands tick)
  isSome : cur.isSome ↔ ∃ c ∈ commands, HasRow balMap chain tick c
  row : ∀ d, cur = some d → AggregatedRow balMap chain tick commands d

theorem Aggregated.nil : Aggregated balMap chain tick [] none :=
  ⟨by simp [account, commandEffects], by simp, fun d h => by cases h⟩

variable {commands : List Command}

/-- Without a row there was nothing to add up. -/
theorem Aggregated.of_none (h : Aggregated balMap chain tick commands none) :
    commandEffects chain commands tick = [] ∨ (balMap.before tick).value = 0 := by
  by_cases hempty : commandEffects chain commands tick = []
  · exact .inl hempty
  · obtain ⟨e, he⟩ := List.exists_mem_of_ne_nil _ hempty
    obtain ⟨c, hc, heffect⟩ := List.mem_filterMap.mp he
    have hnone : ¬∃ c ∈ commands, HasRow balMap chain tick c := fun hrow => by cases h.isSome.mpr hrow
    have hheld : ¬(e = .reset → (balMap.get tick).isSome) := fun hheld =>
      hnone ⟨c, hc, e, heffect, hheld⟩
    have hget := (Classical.not_imp.mp hheld).2
    rw [before_of_get_eq_none (by simpa using hget), value_zero]
    exact .inr rfl

theorem Aggregated.effects_ne_nil {cur : Delta}
    (h : Aggregated balMap chain tick commands (some cur)) :
    commandEffects chain commands tick ≠ [] := by
  obtain ⟨c, hc, e, heffect, -⟩ := h.isSome.mp rfl
  exact List.ne_nil_of_mem (List.mem_filterMap.mpr ⟨c, hc, heffect⟩)

/-- A sweep leaves the chain's coin. -/
theorem chainTick_ne_of_reset {c : Command} (h : commandEffect chain tick c = some .reset) :
    chainTick chain ≠ some tick := by
  rcases c with _ | ⟨action, p⟩
  · cases h
  · rw [commandEffect] at h
    split at h
    · cases h
    · rw [actionEffect] at h
      split at h
      · split at h
        · next hsweep => exact hsweep.2
        · cases h
      · obtain ⟨m, -, hm⟩ := Option.bind_eq_some_iff.mp h
        split at hm <;> cases hm

theorem lastIsCoin_append (commands : List Command) (c : Command) :
    lastIsCoin chain (commands ++ [c]) tick =
      if (commandEffect chain tick c).isSome then commandIsCoin c else lastIsCoin chain commands tick := by
  rw [lastIsCoin, List.filter_append]
  by_cases hsome : (commandEffect chain tick c).isSome
  · have hlast : [c].filter (fun c => (commandEffect chain tick c).isSome) = [c] := by simp [hsome]
    rw [if_pos hsome, hlast, List.getLast?_concat]
    rfl
  · have hlast : [c].filter (fun c => (commandEffect chain tick c).isSome) = [] := by simp [hsome]
    rw [if_neg hsome, hlast, List.append_nil]
    rfl

/-- A command without a row changes nothing. -/
theorem Aggregated.append_none {cur : Option Delta} {c : Command}
    (h : Aggregated balMap chain tick commands cur) (hc : ¬HasRow balMap chain tick c) :
    Aggregated balMap chain tick (commands ++ [c]) cur := by
  have hsome : (∃ c' ∈ commands ++ [c], HasRow balMap chain tick c') ↔
      ∃ c' ∈ commands, HasRow balMap chain tick c' := by
    constructor
    · rintro ⟨c', hmem, hrow⟩
      rcases List.mem_append.mp hmem with hmem | hmem
      · exact ⟨c', hmem, hrow⟩
      · obtain rfl := List.mem_singleton.mp hmem
        exact absurd hrow hc
    · rintro ⟨c', hmem, hrow⟩
      exact ⟨c', List.mem_append_left _ hmem, hrow⟩
  rcases heffect : commandEffect chain tick c with _ | e
  · have hlast : lastIsCoin chain (commands ++ [c]) tick = lastIsCoin chain commands tick := by
      rw [lastIsCoin_append, heffect]
      rfl
    refine ⟨?_, h.isSome.trans hsome.symm, fun d hd => ?_⟩
    · rw [commandEffects_append, commandEffects_singleton, heffect, Option.toList_none, List.append_nil]
      exact h.change
    · obtain ⟨hfee, hknown, hbefore, hcoin, hafter⟩ := h.row d hd
      exact ⟨hfee, hknown, hbefore, hlast ▸ hcoin, hafter⟩
  · -- a sweep of nothing, which adds nothing and is of no coin
    have hheld : ¬(e = .reset → (balMap.get tick).isSome) := fun hheld => hc ⟨e, heffect, hheld⟩
    obtain ⟨rfl, hget⟩ := Classical.not_imp.mp hheld
    have hzero : (balMap.before tick).value = 0 := by
      rw [before_of_get_eq_none (by simpa using hget), value_zero]
    have hne := chainTick_ne_of_reset heffect
    refine ⟨?_, h.isSome.trans hsome.symm, fun d hd => ?_⟩
    · rw [h.change, commandEffects_append, commandEffects_singleton, heffect, account, account, hzero]
      simp
    · obtain ⟨hfee, hknown, hbefore, hcoin, hafter⟩ := h.row d hd
      refine ⟨hfee, hknown, hbefore, ?_, hafter⟩
      rw [hcoin, decide_eq_false hne, Bool.and_false, Bool.and_false]

/-- A row adds its effect. -/
theorem Aggregated.append {cur : Option Delta} {c : Command} {d : Delta} {e : Effect ℚ}
    (h : Aggregated balMap chain d.tick commands cur) (he : commandEffect chain d.tick c = some e)
    (hd : RowOf balMap (chainTick chain) (commandIsCoin c) e d) :
    Aggregated balMap chain d.tick (commands ++ [c]) (some (addRow cur d (balMap.before d.tick))) := by
  obtain ⟨sum, hafter, hvalue⟩ := hd.after
  have hnext : account (balMap.before d.tick).value (commandEffects chain (commands ++ [c]) d.tick) =
      ((commandEffects chain commands d.tick).map (Effect.fromStart (balMap.before d.tick).value)).sum +
        ((formatScaledBigint sum).value - (balMap.before d.tick).value) +
        (commandEffects chain commands d.tick).length •
          ((balMap.before d.tick).value - |(balMap.before d.tick).value|) := by
    rw [commandEffects_append, commandEffects_singleton, he, Option.toList_some, account, List.map_append,
      List.sum_append, List.length_append, hvalue]
    simp [Effect.fromStart]
  have hshown : ∀ after : Option DecimalText, (after.getD zero).value = shownValue after := by
    rintro (_ | after)
    · exact value_zero
    · rfl
  refine ⟨?_, iff_of_true rfl ⟨c, List.mem_append_right _ (List.mem_singleton_self c), e, he, hd.held⟩,
    fun d' hd' => ?_⟩
  · have hchange := h.change
    rcases cur with _ | cur
    · -- the first row: nothing was added before it, or the balance is zero
      have hdelta : (addRow none d (balMap.before d.tick)).change =
          (formatScaledBigint sum).value - (balMap.before d.tick).value := by
        simp [Delta.change, addRow, shownValue, hd.before, hafter]
      rw [elim_some, hdelta, hnext]
      rcases h.of_none with hnil | hzero
      · rw [hnil]
        simp
      · rw [Option.elim_none, account, hzero] at hchange
        rw [hzero]
        simp at hchange ⊢
        exact hchange.symm
    · obtain ⟨n, hn⟩ := Nat.exists_eq_succ_of_ne_zero (List.length_pos_iff.mpr h.effects_ne_nil).ne'
      have hdelta : (addRow (some cur) d (balMap.before d.tick)).change =
          cur.change + ((formatScaledBigint sum).value - |(balMap.before d.tick).value|) := by
        have hcur := (h.row cur rfl).before
        simp only [Delta.change, addRow, shownValue, elim_some, hcur, hafter, Option.getD_some,
          value_addStr, value_subStr]
        rw [hshown, shownValue]
        ring
      rw [elim_some] at hchange ⊢
      rw [hdelta, hnext, hchange, account, hn, Nat.succ_sub_one, succ_nsmul]
      ring
  · obtain ⟨⟩ := hd'
    have hmark : (addRow cur d (balMap.before d.tick)).isCoin =
        (lastIsCoin chain (commands ++ [c]) d.tick && decide (chainTick chain = some d.tick)) := by
      rw [lastIsCoin_append, he, Option.isSome_some, if_pos rfl]
      exact hd.isCoin
    rcases cur with _ | cur
    · exact ⟨rfl, rfl, hd.before, hmark, sum, hafter⟩
    · exact ⟨rfl, rfl, (h.row cur rfl).before, hmark, _, rfl⟩

/-- Folding a command's rows in changes the rows of its tickers. -/
theorem foldlM_aggregate (balMap : Balances) (aggDeltas : AggDeltas)
    (hdistinct : Keyed.Distinct Delta.tick deltas)
    (hrow : ∀ d ∈ deltas, d.isFee = false ∧ d.before = some (balMap.before d.tick)) :
    ∃ next, deltas.foldlM aggregate aggDeltas = some next ∧
      (∀ tick, (∀ d ∈ deltas, d.tick ≠ tick) → next.get tick = aggDeltas.get tick) ∧
      ∀ d ∈ deltas, next.get d.tick =
        some (addRow (aggDeltas.get d.tick) d (balMap.before d.tick)) := by
  induction deltas generalizing aggDeltas with
  | nil => exact ⟨aggDeltas, rfl, fun _ _ => rfl, fun d hd => absurd hd List.not_mem_nil⟩
  | cons d deltas ih =>
    obtain ⟨hfresh, hrest⟩ := hdistinct.cons
    obtain ⟨hfee, hbefore⟩ := hrow d (.head _)
    have hstep : aggregate aggDeltas d =
        some (aggDeltas.put (addRow (aggDeltas.get d.tick) d (balMap.before d.tick))) := by
      rw [aggregate, hfee, hbefore]
      rfl
    have hput : ∀ tick, (aggDeltas.put (addRow (aggDeltas.get d.tick) d (balMap.before d.tick))).get tick =
        if tick = d.tick then some (addRow (aggDeltas.get d.tick) d (balMap.before d.tick))
        else aggDeltas.get tick := fun tick => Keyed.Table.get_put ..
    obtain ⟨next, hnext, hsame, hadded⟩ := ih
      (aggDeltas.put (addRow (aggDeltas.get d.tick) d (balMap.before d.tick))) hrest
      fun d' hd' => hrow d' (.tail d hd')
    refine ⟨next, ?_, fun tick hne => ?_, fun d' hd' => ?_⟩
    · rw [List.foldlM_cons, hstep]
      exact hnext
    · rw [hsame tick fun d' hd' => hne d' (.tail d hd'), hput,
        if_neg (hne d (.head _)).symm]
    · rcases List.mem_cons.mp hd' with rfl | hmem
      · rw [hsame d'.tick hfresh, hput, if_pos rfl]
      · rw [hadded d' hmem, hput, if_neg (hfresh d' hmem)]

/-- **A batch adds up the effects of its commands.** -/
theorem aggregated_commands (done commands : List Command) (aggDeltas : AggDeltas)
    (h : ∀ tick, Aggregated balMap chain tick done (aggDeltas.get tick)) :
    ∃ next, (commands.flatMap (simulateCommand chain balMap)).foldlM aggregate aggDeltas = some next ∧
      ∀ tick, Aggregated balMap chain tick (done ++ commands) (next.get tick) := by
  induction commands generalizing aggDeltas done with
  | nil =>
    refine ⟨aggDeltas, rfl, fun tick => ?_⟩
    rw [List.append_nil]
    exact h tick
  | cons c commands ih =>
    have hrows := rowsOf_simulateCommand chain balMap c
    obtain ⟨mid, hmid, hsame, hadded⟩ := foldlM_aggregate balMap aggDeltas hrows.distinct fun d hd =>
      (hrows.row d hd).elim fun e he => ⟨he.2.isFee, he.2.before⟩
    have hstep : ∀ tick, Aggregated balMap chain tick (done ++ [c]) (mid.get tick) := by
      intro tick
      by_cases hrow : ∃ d ∈ simulateCommand chain balMap c, d.tick = tick
      · obtain ⟨d, hd, rfl⟩ := hrow
        obtain ⟨e, he, hrow⟩ := hrows.row d hd
        rw [hadded d hd]
        exact (h d.tick).append he hrow
      · rw [hsame tick fun d hd htick => hrow ⟨d, hd, htick⟩]
        refine (h tick).append_none ?_
        rintro ⟨e, he, hheld⟩
        exact hrow (hrows.complete tick e he hheld)
    obtain ⟨next, hnext, hall⟩ := ih (done ++ [c]) mid hstep
    refine ⟨next, ?_, fun tick => ?_⟩
    · rw [List.flatMap_cons, List.foldlM_append, hmid]
      exact hnext
    · rw [List.append_cons]
      exact hall tick

end Snapshot

/-! ### The rows that are reported -/

section Reported

variable {deltas : List Delta} {tick coin : Tick}

theorem changeOf_cons (tick : Tick) (d : Delta) (deltas : List Delta) :
    changeOf tick (d :: deltas) =
      if d.tick = tick then if d.afterUnknown then none else (changeOf tick deltas).map (d.change + ·)
      else changeOf tick deltas := by
  by_cases htick : d.tick = tick
  · rw [if_pos htick]
    by_cases hunknown : d.afterUnknown
    · rw [if_pos hunknown, changeOf, any_cons, if_pos (by simp [htick, hunknown])]
    · rw [if_neg hunknown, changeOf, changeOf, any_cons, List.filter_cons_of_pos (by simpa using htick)]
      have hhead : decide (d.tick = tick ∧ d.afterUnknown = true) = false := by simp [hunknown]
      rw [hhead, Bool.false_or]
      split <;> simp
  · rw [if_neg htick, changeOf, changeOf, any_cons, List.filter_cons_of_neg (by simpa using htick)]
    simp [htick]

theorem changeOf_append (tick : Tick) (xs ys : List Delta) :
    changeOf tick (xs ++ ys) = (changeOf tick xs).bind fun x => (changeOf tick ys).map (x + ·) := by
  induction xs with
  | nil =>
    have hnil : changeOf tick [] = some 0 := rfl
    rw [nil_append, hnil, Option.bind_some]
    simp
  | cons d xs ih =>
    rw [List.cons_append, changeOf_cons, changeOf_cons, ih]
    split
    · split
      · rfl
      · rcases changeOf tick xs with _ | x
        · rfl
        · rcases changeOf tick ys with _ | y
          · rfl
          · simp [add_assoc]
    · rfl

theorem changeOf_debit {c : ℚ} (debit : DecimalText) (hany : deltas.any isCoinRow)
    (hcoin : ∀ d ∈ deltas, isCoinRow d → d.tick = coin) (hchange : changeOf tick deltas = some c) :
    changeOf tick (editFirst isCoinRow (Delta.debit debit) deltas) =
      some (c + if coin = tick then debit.value else 0) := by
  induction deltas generalizing c with
  | nil => cases hany
  | cons d deltas ih =>
    rw [changeOf_cons] at hchange
    rw [editFirst]
    by_cases hrow : isCoinRow d
    · have htick := hcoin d (.head _) hrow
      have hdebit : (d.debit debit).change = d.change + debit.value := by
        have hafter : (d.after.getD zero).value = shownValue d.after := by
          rcases d.after with _ | a
          · exact value_zero
          · rfl
        simp only [Delta.change, Delta.debit, shownValue, elim_some, value_addStr]
        rw [hafter, shownValue]
        ring
      have hkept : (d.debit debit).afterUnknown = d.afterUnknown := rfl
      have hsame : (d.debit debit).tick = d.tick := rfl
      rw [if_pos hrow, changeOf_cons, hkept, hsame]
      by_cases heq : d.tick = tick
      · rw [if_pos heq] at hchange ⊢
        split at hchange
        · cases hchange
        · next hknown =>
          rw [if_neg hknown, if_pos (htick.symm.trans heq), hdebit]
          obtain ⟨x, hx, rfl⟩ := Option.map_eq_some_iff.mp hchange
          rw [hx, map_some, add_right_comm]
      · rw [if_neg heq] at hchange ⊢
        rw [if_neg (htick ▸ heq), add_zero, hchange]
    · have hrest : deltas.any isCoinRow := by
        rw [any_cons, Bool.or_eq_true] at hany
        exact hany.resolve_left hrow
      have hcoin' := fun d' hd' => hcoin d' (.tail d hd')
      rw [if_neg hrow, changeOf_cons]
      split at hchange
      · split at hchange
        · cases hchange
        · next heq hknown =>
          obtain ⟨x, hx, rfl⟩ := Option.map_eq_some_iff.mp hchange
          rw [if_pos heq, if_neg hknown, ih hrest hcoin' hx, map_some, add_assoc]
      · next hne =>
        rw [if_neg hne]
        exact ih hrest hcoin' hchange

theorem changeOf_forget (hany : deltas.any isCoinRow)
    (hcoin : ∀ d ∈ deltas, isCoinRow d → d.tick = coin) :
    changeOf tick (editFirst isCoinRow Delta.forget deltas) =
      if coin = tick then none else changeOf tick deltas := by
  induction deltas with
  | nil => cases hany
  | cons d deltas ih =>
    rw [editFirst, changeOf_cons]
    by_cases hrow : isCoinRow d
    · have htick := hcoin d (.head _) hrow
      have hforgot : d.forget.afterUnknown = true := rfl
      have hsame : d.forget.tick = d.tick := rfl
      rw [if_pos hrow, changeOf_cons, hforgot, hsame, htick]
      by_cases heq : coin = tick
      · rw [if_pos heq, if_pos heq, if_pos rfl]
      · rw [if_neg heq, if_neg heq, if_neg heq]
    · have hrest : deltas.any isCoinRow := by
        rw [any_cons, Bool.or_eq_true] at hany
        exact hany.resolve_left hrow
      rw [if_neg hrow, changeOf_cons, ih hrest fun d' hd' => hcoin d' (.tail d hd')]
      by_cases heq : coin = tick
      · simp [heq]
      · simp [heq]

/-- The fee is reported on top of the changes of the rows. -/
theorem changeOf_pushFeeRow {c : ℚ} (balMap : Balances) {coinTick : Option Tick}
    (feeEstimate : FeeEstimate) (hcoin : ∀ d ∈ deltas, isCoinRow d → coinTick = some d.tick)
    (hchange : changeOf tick deltas = some c) :
    (pushFeeRow deltas balMap coinTick feeEstimate).map (changeOf tick) =
      (pushFeeRow [] balMap coinTick feeEstimate).map fun fees => (changeOf tick fees).map (· + c) := by
  have hnone : (some (changeOf tick deltas)) = some ((changeOf tick []).map (· + c)) := by
    rw [hchange]
    exact congrArg (some ∘ some) (zero_add c).symm
  rcases coinTick with _ | coin
  · exact hnone
  · have hcoin' : ∀ d ∈ deltas, isCoinRow d → d.tick = coin := fun d hd hrow =>
      (Option.some.inj (hcoin d hd hrow)).symm
    rcases feeEstimate with _ | _ | fee
    · exact hnone
    · -- the fee is not known: neither side reports the coin
      simp only [pushFeeRow, map_some, some.injEq, pushUnknownFeeRow, any_nil,
        Bool.false_eq_true, if_false, nil_append]
      by_cases hany : deltas.any isCoinRow
      · rw [if_pos hany, changeOf_append, changeOf_forget hany hcoin']
        by_cases heq : coin = tick
        · simp [heq, changeOf_cons]
        · rw [if_neg heq, hchange]
          simp [heq, changeOf]
      · rw [if_neg hany, changeOf_append, hchange]
        by_cases heq : coin = tick
        · simp [heq, changeOf_cons]
        · simp [heq, changeOf]
    · rw [pushFeeRow, pushFeeRow]
      split
      · exact hnone
      · rcases neg fee with _ | debit
        · rfl
        · simp only [map_some, some.injEq, pushKnownFeeRow, any_nil,
            Bool.false_eq_true, if_false, nil_append]
          have hrow : ∀ d : Delta, d.afterUnknown = false →
              changeOf tick [d] = some (if d.tick = tick then d.change else 0) := by
            intro d hd
            rw [changeOf_cons, hd]
            split <;> simp [changeOf]
          have hfee : changeOf tick [{ deltaRow coin balMap debit true with isFee := true, feeAmount := fee }] =
              some (if coin = tick then debit.value else 0) := by
            refine (hrow _ rfl).trans (congrArg some ?_)
            simp [deltaRow, Delta.change, shownValue]
          rw [hfee, map_some]
          by_cases hany : deltas.any isCoinRow
          · rw [if_pos hany, changeOf_append, changeOf_debit debit hany hcoin' hchange, hrow _ rfl]
            simp [Delta.change, shownValue, add_comm]
          · rw [if_neg hany, changeOf_append, hchange, hfee]
            simp [add_comm]

/-- A batch reports what its commands add up to. -/
theorem changeOf_aggregated {balMap : Balances} {chain : Option String} {aggDeltas : AggDeltas}
    {commands : List Command} (h : Aggregated balMap chain tick commands (aggDeltas.get tick)) :
    changeOf tick (aggDeltas.records.filter fun d => d.before ≠ d.after) =
      some (account (balMap.before tick).value (commandEffects chain commands tick)) := by
  have hknown : ¬(aggDeltas.records.filter fun d => d.before ≠ d.after).any fun d =>
      d.tick = tick ∧ d.afterUnknown := by
    intro hany
    obtain ⟨d, hd, hunknown⟩ := List.any_eq_true.mp hany
    obtain ⟨htick, hafter⟩ := of_decide_eq_true hunknown
    have hget := aggDeltas.get_eq_some.mpr ⟨(List.mem_filter.mp hd).1, htick⟩
    exact absurd (hafter.symm.trans (h.row d hget).afterUnknown) (by decide)
  have hchange := h.change
  rw [changeOf, if_neg hknown, List.filter_comm, aggDeltas.filter_key, some.injEq, ← hchange]
  rcases aggDeltas.get tick with _ | d
  · rfl
  · -- a row that ends where it began is not shown
    by_cases hsame : d.before = d.after
    · have hzero : d.change = 0 := by rw [Delta.change, hsame, sub_self]
      simp [hsame, hzero]
    · simp [hsame]

end Reported

/-! ### When they agree -/

/-- What the batch's account of some effects is off by: the changes that a later sweep takes along, the
starting balance for every sweep but one, and what a balance below zero is away from its own size for
every row but one. -/
def excess (start : ℚ) (es : List (Effect ℚ)) : ℚ :=
  Effect.wiped es - (Effect.resets es - 1) • start + (es.length - 1) • (start - |start|)

theorem account_eq (start : ℚ) (es : List (Effect ℚ)) :
    account start es = Effect.run start es - start + excess start es := by
  rw [account, Effect.sum_fromStart, excess, add_assoc]

section Agreement

variable (balMap : Balances) {coinTick : Option Tick} (feeEstimate : FeeEstimate)

/-- The change that a batch reports. -/
theorem changeOf_simulateBatch (commands : List Command) {chain : Option String}
    (hcoin : ∀ tick, chainTick chain = some tick → coinTick = some tick) (tick : Tick) :
    (simulateBatch commands balMap coinTick feeEstimate chain).map (changeOf tick) =
      (pushFeeRow [] balMap coinTick feeEstimate).map fun fees => (changeOf tick fees).map
        (· + account (balMap.before tick).value (commandEffects chain commands tick)) := by
  by_cases hempty : commands = []
  · subst hempty
    have haccount : account (balMap.before tick).value (commandEffects chain [] tick) = 0 := by
      simp [account, commandEffects]
    rw [simulateBatch, if_pos rfl, haccount]
    simp
  · obtain ⟨aggDeltas, hfold, hall⟩ := aggregated_commands [] commands .empty fun _ => Aggregated.nil
    rw [simulateBatch, if_neg hempty, hfold]
    refine changeOf_pushFeeRow balMap feeEstimate (fun d hd hrow => ?_) (changeOf_aggregated (hall tick))
    have hget := aggDeltas.get_eq_some.mpr ⟨(List.mem_filter.mp hd).1, rfl⟩
    have hmark := ((hall d.tick).row d hget).isCoin.symm.trans (of_decide_eq_true hrow).1
    exact hcoin _ (of_decide_eq_true (Bool.and_eq_true_iff.mp hmark).2)

/-- The fee throws where it is a malformed amount. -/
theorem pushFeeRow_eq_none (deltas : List Delta) : pushFeeRow deltas balMap coinTick feeEstimate = none ↔
    ∃ coin fee, coinTick = some coin ∧ feeEstimate = .amount fee ∧ fee ≠ "" ∧
      (numberOf fee).isZero = false ∧ unsignedDecimal fee = none := by
  constructor
  · intro h
    rcases coinTick with _ | coin
    · cases h
    · rcases feeEstimate with _ | _ | fee
      · cases h
      · cases h
      · rw [pushFeeRow] at h
        split at h
        · cases h
        · next hfee =>
          obtain ⟨hne, hzero⟩ := not_or.mp hfee
          rw [neg, Option.map_map, Option.map_eq_none_iff] at h
          exact ⟨coin, fee, rfl, rfl, hne, Bool.eq_false_iff.mpr hzero, h⟩
  · rintro ⟨coin, fee, rfl, rfl, hne, hzero, hnone⟩
    rw [pushFeeRow, if_neg (not_or.mpr ⟨hne, Bool.eq_false_iff.mp hzero⟩), neg, hnone]
    rfl

variable {balMap feeEstimate}

/-- A fee that is not known leaves the coin's change open, and only that. -/
theorem changeOf_fees_eq_none {fees : List Delta} {tick : Tick}
    (h : pushFeeRow [] balMap coinTick feeEstimate = some fees) :
    changeOf tick fees = none ↔ feeEstimate = .unknown ∧ coinTick = some tick := by
  have hnil : changeOf tick [] ≠ none := Option.some_ne_none _
  rcases coinTick with _ | coin
  · cases h
    simp [hnil]
  · rcases feeEstimate with _ | _ | fee
    · cases h
      simp [hnil]
    · cases h
      simp only [pushUnknownFeeRow, any_nil, Bool.false_eq_true, if_false, nil_append,
        changeOf_cons, true_and, some.injEq]
      by_cases heq : coin = tick
      · simp [heq]
      · simp [heq, hnil]
    · rw [pushFeeRow] at h
      split at h
      · cases h
        simp [hnil]
      · obtain ⟨debit, -, rfl⟩ := Option.map_eq_some_iff.mp h
        simp only [pushKnownFeeRow, any_nil, Bool.false_eq_true, if_false, nil_append,
          changeOf_cons, reduceCtorEq, false_and, iff_false]
        split
        · simp [deltaRow, changeOf]
        · exact hnil

end Agreement

/-- **A batch reports its commands in order where no sweep takes what is already gone.** The starting
balances and the coin are the ones that the simulator reads from the caller's. Where the fee throws, both
do; where it is not known, neither says what the coin's change is. -/
theorem simulateBatch_reports_iff (commands : List Command) (balances : List BalanceLookup)
    (feeEstimate : FeeEstimate) (chain : Option String) :
    ReportsInOrder commands (indexBalances balances (coinTickOf chain balances))
        (coinTickOf chain balances) feeEstimate chain ↔
      (∃ coin fee, coinTickOf chain balances = some coin ∧ feeEstimate = .amount fee ∧ fee ≠ "" ∧
        (numberOf fee).isZero = false ∧ unsignedDecimal fee = none) ∨
      ∀ tick, feeEstimate = .unknown ∧ coinTickOf chain balances = some tick ∨
        excess ((indexBalances balances (coinTickOf chain balances)).before tick).value
          (commandEffects chain commands tick) = 0 := by
  obtain ⟨coinTick, hcoinTick⟩ : ∃ coinTick, coinTickOf chain balances = coinTick := ⟨_, rfl⟩
  obtain ⟨balMap, hbalMap⟩ : ∃ balMap, indexBalances balances coinTick = balMap := ⟨_, rfl⟩
  rw [hcoinTick, hbalMap]
  have hcoin : ∀ tick, chainTick chain = some tick → coinTick = some tick := by
    intro tick htick
    rw [← hcoinTick]
    exact congrArg (Option.or · (inferCoinTick balances)) htick
  have hreport := changeOf_simulateBatch balMap feeEstimate commands hcoin
  rw [← pushFeeRow_eq_none balMap feeEstimate []]
  rcases hfees : pushFeeRow [] balMap coinTick feeEstimate with _ | fees
  · -- the fee throws on both sides
    refine iff_of_true (fun tick => ?_) (.inl rfl)
    rw [hreport tick, hfees]
    rfl
  · have heach : ∀ tick, (simulateBatch commands balMap coinTick feeEstimate chain).map (changeOf tick) =
        (some fees).map (fun fees => (changeOf tick fees).map (· + changeInOrder chain commands balMap tick)) ↔
          feeEstimate = .unknown ∧ coinTick = some tick ∨
            excess (balMap.before tick).value (commandEffects chain commands tick) = 0 := by
      intro tick
      rw [hreport tick, hfees, ← changeOf_fees_eq_none hfees, Option.map_some, Option.map_some,
        Option.some.injEq]
      have horder : changeInOrder chain commands balMap tick =
          Effect.run (balMap.before tick).value (commandEffects chain commands tick) -
            (balMap.before tick).value := by
        rw [changeInOrder, value_simulateInOrder]
      rcases changeOf tick fees with _ | fee
      · simp
      · rw [horder, account_eq]
        simp
    constructor
    · exact fun h => .inr fun tick => (heach tick).mp (hfees ▸ h tick)
    · rintro (hnone | h) tick
      · cases hnone
      · rw [hfees]
        exact (heach tick).mpr (h tick)

private def heldBalances : List BalanceLookup :=
  [⟨"BTC", some ⟨"1", by decide⟩, true, false⟩, ⟨"XCP", some ⟨"10", by decide⟩, false, false⟩]

private def sendThree : Command :=
  .of "SEND" fun key => if key = "TICK" then some "XCP" else if key = "AMOUNT" then some "3" else none

private def sweepAll : Command := .of "SWEEP" fun _ => none

/-- Three of ten tokens are sent and the rest swept: the batch reports thirteen as gone. -/
theorem not_simulateBatch_reports : ¬∀ commands balances feeEstimate chain,
    ReportsInOrder commands (indexBalances balances (coinTickOf chain balances))
      (coinTickOf chain balances) feeEstimate chain := by
  intro h
  have htick := h [sendThree, sweepAll] heldBalances .absent (some "bitcoin") ⟨"XCP", by decide, by decide⟩
  revert htick
  decide +kernel

end XchainWallet.TxSimulator
