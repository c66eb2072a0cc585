import XchainWallet.Decoder.TxSimulator
import XchainWallet.Transition.Resets

/-!
# The rows of one action

Every action but a batch has its own rows, at most one for a ticker, and the fee beside them. What it does
to a ticker does not depend on the balances: it adds a change or takes all there is. `rowsOf_ownRows` says
that the own rows go from the balance before through that effect, and `simulateSingle_eq` where the fee
comes in.
-/

namespace XchainWallet.TxSimulator

open Json Transition

/-! ### What an action does to a ticker -/

/-- What an action moves, whatever the balances are. Outside, none is a malformed amount. -/
def actionMoved (p : Fields) (action : String) : Option (Option (Tick × DecimalText)) :=
  if action = "SEND" ∨ action = "DESTROY" then moved (upper (p "TICK")) (str (p "AMOUNT")) neg
  else if action = "MINT" then mintMoved p
  else if action = "ISSUE" then issueMoved p
  else if action = "DISPENSER" then dispenserMoved p
  else some none

/-- The action's row of the coin is marked as the coin's. -/
def isCoinMove (p : Fields) (action : String) : Bool :=
  action = "SEND" ∨ action = "DISPENSER" ∧ version p ≠ "2"

/-- The action's fee is pushed before its own row. -/
def isFeeFirst (action : String) : Bool := action = "ISSUE" ∨ action = "DISPENSER"

/-- What a move does to a ticker. -/
def moveEffect (move : Option (Tick × DecimalText)) (tick : Tick) : Option (Effect ℚ) :=
  move.bind fun m => if m.1 = tick then some (.change m.2.value) else none

/-- What an action does to a ticker: a sweep takes all of it, the others add a change. -/
def actionEffect (coinTick : Option Tick) (p : Fields) (action : String) (tick : Tick) :
    Option (Effect ℚ) :=
  if action = "SWEEP" then
    if flagOn (p "BALANCES") true ∧ coinTick ≠ some tick then some .reset else none
  else moveEffect (actionMoved p action).join tick

/-- The row that goes from the balance before through an effect. -/
structure RowOf (balMap : Balances) (coinTick : Option Tick) (isCoin : Bool) (e : Effect ℚ) (d : Delta) :
    Prop where
  isFee : d.isFee = false
  afterUnknown : d.afterUnknown = false
  before : d.before = some (balMap.before d.tick)
  isCoin : d.isCoin = (isCoin && decide (coinTick = some d.tick))
  after : ∃ sum, d.after = some (formatScaledBigint sum) ∧
    (formatScaledBigint sum).value = e.apply (balMap.before d.tick).value
  held : e = .reset → (balMap.get d.tick).isSome

/-- Rows for the effects of one action: at most one for a ticker, and none for a sweep of nothing. -/
structure RowsOf (balMap : Balances) (coinTick : Option Tick) (isCoin : Bool)
    (effect : Tick → Option (Effect ℚ)) (deltas : List Delta) : Prop where
  distinct : Keyed.Distinct Delta.tick deltas
  row : ∀ d ∈ deltas, ∃ e, effect d.tick = some e ∧ RowOf balMap coinTick isCoin e d
  complete : ∀ tick e, effect tick = some e → (e = .reset → (balMap.get tick).isSome) →
    ∃ d ∈ deltas, d.tick = tick

/-- The rows of an action without its fee, none where its amount is malformed. -/
def ownRows (p : Fields) (balMap : Balances) (coinTick : Option Tick) (action : String) :
    Option (List Delta) :=
  if action = "SWEEP" then some (if flagOn (p "BALANCES") true then sweepRows balMap coinTick else [])
  else (actionMoved p action).map fun move =>
    movedRow balMap (isCoinMove p action && move.any fun m => coinTick = some m.1) move

section Rows

variable {balMap : Balances} {coinTick : Option Tick}

theorem before_of_get_eq_some {tick : Tick} {entry : Tick × DecimalText}
    (h : balMap.get tick = some entry) : balMap.before tick = entry.2 := by
  rw [Balances.before, Balances.amount, h]
  rfl

/-- A ticker without a balance has the balance zero. -/
theorem before_of_get_eq_none {tick : Tick} (h : balMap.get tick = none) : balMap.before tick = zero := by
  rw [Balances.before, Balances.amount, h]
  rfl

theorem RowsOf.nil (isCoin : Bool) : RowsOf balMap coinTick isCoin (fun _ => none) [] :=
  ⟨.nil, fun d hd => absurd hd List.not_mem_nil, fun tick e he => by cases he⟩

/-- An action that moves at most one ticker. -/
theorem rowsOf_movedRow (isCoin : Bool) (move : Option (Tick × DecimalText)) :
    RowsOf balMap coinTick isCoin (moveEffect move)
      (movedRow balMap (isCoin && move.any fun m => coinTick = some m.1) move) := by
  rcases move with _ | move
  · exact RowsOf.nil isCoin
  · refine ⟨List.nodup_singleton _, fun d hd => ?_, fun tick e he _ => ?_⟩
    · obtain rfl := List.mem_singleton.mp hd
      refine ⟨.change move.2.value, if_pos rfl, rfl, rfl, rfl, rfl, ⟨_, rfl, ?_⟩, fun h => by cases h⟩
      exact value_addStr _ _
    · refine ⟨_, List.mem_singleton_self _, ?_⟩
      by_contra hne
      have hnone : moveEffect (some move) tick = none := if_neg hne
      rw [hnone] at he
      cases he

/-- A sweep, which leaves the coin. -/
theorem rowsOf_sweepRows (isCoin : Bool) (hcoin : isCoin = false) :
    RowsOf balMap coinTick isCoin (fun tick => if coinTick ≠ some tick then some .reset else none)
      (sweepRows balMap coinTick) := by
  refine ⟨?_, fun d hd => ?_, fun tick e he hheld => ?_⟩
  · have hkeys : Keyed.Distinct Prod.fst
        (balMap.records.filter fun entry => some entry.1 ≠ coinTick) := balMap.distinct.filter _
    rw [Keyed.Distinct, sweepRows, List.map_map]
    exact hkeys
  · obtain ⟨entry, hentry, rfl⟩ := List.mem_map.mp hd
    obtain ⟨hmem, hne⟩ := List.mem_filter.mp hentry
    have hget : balMap.get entry.1 = some entry := balMap.get_eq_some.mpr ⟨hmem, rfl⟩
    have hne' : coinTick ≠ some entry.1 := fun h => by simp [h] at hne
    refine ⟨.reset, if_pos hne', rfl, rfl, congrArg some (before_of_get_eq_some hget).symm,
      by rw [hcoin]; rfl, ⟨⟨0, 0⟩, rfl, value_zero⟩, fun _ => by rw [hget]; rfl⟩
  · by_cases hne : coinTick ≠ some tick
    · rw [if_pos hne, Option.some.injEq] at he
      obtain ⟨entry, hget⟩ := Option.isSome_iff_exists.mp (hheld he.symm)
      obtain ⟨hmem, rfl⟩ := balMap.get_eq_some.mp hget
      refine ⟨_, List.mem_map_of_mem (List.mem_filter.mpr ⟨hmem, ?_⟩), rfl⟩
      simpa using hne.symm
    · rw [if_neg hne] at he
      cases he

/-- **The own rows of an action go through its effects.** -/
theorem rowsOf_ownRows {p : Fields} {action : String} {own : List Delta}
    (h : ownRows p balMap coinTick action = some own) :
    RowsOf balMap coinTick (isCoinMove p action) (actionEffect coinTick p action) own := by
  by_cases hsweep : action = "SWEEP"
  · subst hsweep
    have hcoin : isCoinMove p "SWEEP" = false := rfl
    rw [ownRows, if_pos rfl, Option.some.injEq] at h
    subst h
    by_cases hflag : flagOn (p "BALANCES") true
    · have heffect : actionEffect coinTick p "SWEEP" =
          fun tick => if coinTick ≠ some tick then some .reset else none := by
        funext tick
        simp [actionEffect, hflag]
      rw [if_pos hflag, heffect]
      exact rowsOf_sweepRows _ hcoin
    · have heffect : actionEffect coinTick p "SWEEP" = fun _ => none := by
        funext tick
        simp [actionEffect, hflag]
      rw [if_neg hflag, heffect]
      exact RowsOf.nil _
  · rw [ownRows, if_neg hsweep] at h
    obtain ⟨move, hmove, rfl⟩ := Option.map_eq_some_iff.mp h
    have heffect : actionEffect coinTick p action = moveEffect move := by
      funext tick
      rw [actionEffect, if_neg hsweep, hmove]
      rfl
    rw [heffect]
    exact rowsOf_movedRow _ move

/-- A malformed amount has no effect. -/
theorem actionEffect_of_malformed {p : Fields} {action : String}
    (h : ownRows p balMap coinTick action = none) (tick : Tick) :
    actionEffect coinTick p action tick = none := by
  rw [ownRows] at h
  split at h
  · cases h
  · next hsweep =>
    rw [actionEffect, if_neg hsweep, Option.map_eq_none_iff.mp h]
    rfl

end Rows

/-! ### The fee beside the rows -/

section Fees

variable {p : Fields} (balMap : Balances) (coinTick : Option Tick) (feeEstimate : FeeEstimate)

theorem moved_eq_some {tick : Option Tick} {amount : String} {signed : String → Option DecimalText}
    {m : Tick × DecimalText} (h : moved tick amount signed = some (some m)) : tick = some m.1 := by
  rcases tick with _ | tick
  · cases h
  · rw [moved] at h
    split at h
    · cases h
    · obtain ⟨delta, -, hdelta⟩ := Option.map_eq_some_iff.mp h
      rw [← Option.some.inj hdelta]

/-- The mark of the coin's row, by the ticker that is read and by the one that is moved. -/
theorem movedRow_isCoin {tick : Option Tick} {amount : String} {signed : String → Option DecimalText}
    {move : Option (Tick × DecimalText)} (isCoin : Bool) (h : moved tick amount signed = some move) :
    movedRow balMap (isCoin && decide (tick = coinTick)) move =
      movedRow balMap (isCoin && move.any fun m => coinTick = some m.1) move := by
  rcases move with _ | m
  · rfl
  · have htick := moved_eq_some h
    simp only [htick, Option.any_some, eq_comm (a := some m.1)]

/-- The fee and the move are read in one order or the other. -/
private theorem bind_swap {α β : Type} (fees : Option (List α)) (move : Option β) (row : β → List α) :
    (do let fees ← fees
        let move ← move
        pure (fees ++ row move)) =
      (move.map row).bind fun own => fees.map (· ++ own) := by
  rcases fees with _ | fees
  · rcases move with _ | move <;> rfl
  · rcases move with _ | move <;> rfl

/-- **The fee comes before the own row or is folded into the rows behind it.** -/
theorem simulateSingle_eq (action : String) :
    simulateSingle p balMap coinTick feeEstimate action =
      (ownRows p balMap coinTick action).bind fun own =>
        if isFeeFirst action then (pushFeeRow [] balMap coinTick feeEstimate).map (· ++ own)
        else pushFeeRow own balMap coinTick feeEstimate := by
  by_cases hsend : action = "SEND"
  · subst hsend
    have hrows : ownRows p balMap coinTick "SEND" =
        (moved (upper (p "TICK")) (str (p "AMOUNT")) neg).map fun move =>
          movedRow balMap (true && move.any fun m => coinTick = some m.1) move := rfl
    have hfirst : isFeeFirst "SEND" = false := rfl
    simp only [simulateSingle, simulateSend, hrows, hfirst, if_true, Bool.false_eq_true, if_false]
    rcases hmove : moved (upper (p "TICK")) (str (p "AMOUNT")) neg with _ | move
    · rfl
    · have hcoin := movedRow_isCoin balMap coinTick true hmove
      rw [Bool.true_and] at hcoin
      simp only [bind, Option.bind_some, Option.map_some, hcoin]
  by_cases hsweep : action = "SWEEP"
  · subst hsweep
    rfl
  by_cases hmint : action = "MINT"
  · subst hmint
    have hrows : ownRows p balMap coinTick "MINT" = (mintMoved p).map (movedRow balMap false) := rfl
    have hfirst : isFeeFirst "MINT" = false := rfl
    simp only [simulateSingle, simulateMint, hrows, hfirst, if_true, Bool.false_eq_true, if_false,
      String.reduceEq, bind, Option.bind_map]
    rfl
  by_cases hdestroy : action = "DESTROY"
  · subst hdestroy
    have hrows : ownRows p balMap coinTick "DESTROY" =
        (moved (upper (p "TICK")) (str (p "AMOUNT")) neg).map (movedRow balMap false) := rfl
    have hfirst : isFeeFirst "DESTROY" = false := rfl
    simp only [simulateSingle, simulateDestroy, hrows, hfirst, if_true, Bool.false_eq_true, if_false,
      String.reduceEq, bind, Option.bind_map]
    rfl
  by_cases hissue : action = "ISSUE"
  · subst hissue
    have hrows : ownRows p balMap coinTick "ISSUE" = (issueMoved p).map (movedRow balMap false) := rfl
    have hfirst : isFeeFirst "ISSUE" = true := rfl
    simp only [simulateSingle, simulateIssue, hrows, hfirst, if_true, if_false, String.reduceEq]
    exact bind_swap _ _ _
  by_cases hdispenser : action = "DISPENSER"
  · subst hdispenser
    have hfirst : isFeeFirst "DISPENSER" = true := rfl
    have hmark : isCoinMove p "DISPENSER" = decide (version p ≠ "2") := by simp [isCoinMove]
    have hrows : ownRows p balMap coinTick "DISPENSER" = (dispenserMoved p).map
        (movedRow balMap (version p ≠ "2" ∧ upper (p "GIVE_TICK") = coinTick)) := by
      have hown : ownRows p balMap coinTick "DISPENSER" = (dispenserMoved p).map fun move =>
          movedRow balMap (isCoinMove p "DISPENSER" && move.any fun m => coinTick = some m.1) move := rfl
      rw [hown, hmark, Bool.decide_and, dispenserMoved]
      split
      · rfl
      · rcases hmove : moved (upper (p "GIVE_TICK")) (str (p "GIVE_ESCROW")) neg with _ | move
        · rfl
        · exact congrArg some (movedRow_isCoin balMap coinTick _ hmove).symm
    simp only [simulateSingle, simulateDispenser, hrows, hfirst, if_true, if_false, String.reduceEq]
    exact bind_swap _ _ _
  have hrows : ownRows p balMap coinTick action = some [] := by
    simp [ownRows, actionMoved, hsend, hsweep, hmint, hdestroy, hissue, hdispenser, movedRow]
  have hfirst : isFeeFirst action = false := by simp [isFeeFirst, hissue, hdispenser]
  rw [hrows, Option.bind_some, hfirst]
  simp [simulateSingle, feeOnly, hsend, hsweep, hmint, hdestroy, hissue, hdispenser]

end Fees

end XchainWallet.TxSimulator
