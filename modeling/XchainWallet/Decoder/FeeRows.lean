import XchainWallet.Decoder.ActionRows

/-!
# The fees among the rows

The rows of one ticker show its balance after once, more than once or not at all. This is followed through
the three things that happen to the rows an action has of its own: the miner fee is folded into the coin's
row or put on a row beside it (`holds_feeBody`), the protocol fee is folded into the row that carries the
ticker's balance after (`holds_applyProtocolFee`), and a balance that could not be read is blanked
(`postStates_blankUnknownBalances`).
-/

namespace XchainWallet.TxSimulator

open Json
open Option (map_eq_some_iff some.inj some.injEq some_ne_none)
open List (any_eq_true append_nil filterMap_cons filter_append filter_cons nil_append)

/-- The balances after that rows show for a ticker. -/
def postStates (tick : Tick) (deltas : List Delta) : List ℚ :=
  (deltas.filter (·.tick = tick)).filterMap fun d => d.after.map DecimalText.value

/-! ### Edits and the rows of one ticker -/

section Edits

variable {deltas : List Delta} {p q : Delta → Bool} {f : Delta → Delta} {tick : Tick}

theorem filter_editFirst (hp : ∀ d ∈ deltas, p d → q d) (hf : ∀ d, q (f d) = q d) :
    (editFirst p f deltas).filter q = editFirst p f (deltas.filter q) := by
  induction deltas with
  | nil => rfl
  | cons d deltas ih =>
    have hrest := ih fun d' hd' => hp d' (.tail d hd')
    by_cases hfirst : p d
    · have hkept := hp d (.head _) hfirst
      rw [editFirst, if_pos hfirst, List.filter_cons_of_pos (by rw [hf]; exact hkept),
        List.filter_cons_of_pos hkept, editFirst, if_pos hfirst]
    · rw [editFirst, if_neg hfirst]
      by_cases hkept : q d
      · rw [List.filter_cons_of_pos hkept, List.filter_cons_of_pos hkept, hrest, editFirst, if_neg hfirst]
      · rw [List.filter_cons_of_neg hkept, List.filter_cons_of_neg hkept, hrest]

theorem filter_editFirst_of_not (hp : ∀ d ∈ deltas, p d → q d = false) (hf : ∀ d, q (f d) = q d) :
    (editFirst p f deltas).filter q = deltas.filter q := by
  induction deltas with
  | nil => rfl
  | cons d deltas ih =>
    have hrest := ih fun d' hd' => hp d' (.tail d hd')
    by_cases hfirst : p d
    · rw [editFirst, if_pos hfirst, filter_cons, filter_cons, hf, hp d (.head _) hfirst]
      rfl
    · rw [editFirst, if_neg hfirst, filter_cons, filter_cons, hrest]

/-- A row that shows no balance after adds no post-state. -/
theorem postStates_insertAfter {row : Delta} (hrow : row.after = none) (deltas : List Delta) :
    postStates tick (insertAfter p row deltas) = postStates tick deltas := by
  have hnone : ∀ more : List Delta, postStates tick (row :: more) = postStates tick more := by
    intro more
    rw [postStates, postStates, filter_cons]
    split
    · rw [filterMap_cons, hrow]
      rfl
    · rfl
  have hcons : ∀ (d : Delta) {xs ys : List Delta}, postStates tick xs = postStates tick ys →
      postStates tick (d :: xs) = postStates tick (d :: ys) := by
    intro d xs ys h
    rw [postStates, postStates, filter_cons, filter_cons]
    split
    · rw [filterMap_cons, filterMap_cons]
      rw [postStates, postStates] at h
      rw [h]
    · exact h
  induction deltas with
  | nil => exact hnone []
  | cons d deltas ih =>
    rw [insertAfter]
    split
    · exact hcons d (hnone deltas)
    · exact hcons d ih

theorem filter_insertAfter_of_ne {row : Delta} (hrow : row.tick ≠ tick) (deltas : List Delta) :
    (insertAfter p row deltas).filter (·.tick = tick) = deltas.filter (·.tick = tick) := by
  induction deltas with
  | nil => simp [insertAfter, hrow]
  | cons d deltas ih =>
    rw [insertAfter]
    split
    · simp [filter_cons, hrow]
    · rw [filter_cons, filter_cons, ih]

/-- A row of a ticker that has none yet. -/
theorem postStates_insertAfter_self {row : Delta} (hnil : deltas.filter (·.tick = tick) = [])
    (hrow : row.tick = tick) :
    postStates tick (insertAfter p row deltas) = (row.after.map DecimalText.value).toList := by
  suffices h : (insertAfter p row deltas).filter (·.tick = tick) = [row] by
    rw [postStates, h, filterMap_cons]
    rcases row.after <;> rfl
  have hone : ∀ more : List Delta, more.filter (·.tick = tick) = [] →
      (row :: more).filter (·.tick = tick) = [row] := by
    intro more hmore
    rw [List.filter_cons_of_pos (by simpa using hrow), hmore]
  induction deltas with
  | nil => exact hone [] rfl
  | cons d deltas ih =>
    have hd : ¬d.tick = tick := fun h => by simp [h] at hnil
    rw [List.filter_cons_of_neg (by simpa using hd)] at hnil
    rw [insertAfter]
    split
    · rw [List.filter_cons_of_neg (by simpa using hd)]
      exact hone deltas hnil
    · rw [List.filter_cons_of_neg (by simpa using hd)]
      exact ih hnil

/-- Whether a row carries the ticker's balance after is seen from the rows of the ticker. -/
theorem isCarrier_filter (deltas : List Delta) (tick : Tick) :
    isCarrier (deltas.filter (·.tick = tick)) tick = isCarrier deltas tick := by
  have hany : (deltas.filter (·.tick = tick)).any (fun d => d.tick = tick ∧ ¬d.isFee) =
      deltas.any fun d => d.tick = tick ∧ ¬d.isFee := by
    rw [List.any_filter]
    refine congrArg (List.any deltas) (funext fun d => ?_)
    by_cases h : d.tick = tick <;> simp [h]
  funext d
  rw [isCarrier, isCarrier, hany]

theorem tick_of_isCarrier {d : Delta} (h : isCarrier deltas tick d) : d.tick = tick := by
  rw [isCarrier] at h
  split at h
  · exact (of_decide_eq_true h).1
  · exact (of_decide_eq_true h).1

end Edits

/-! ### How a ticker's balance after is shown -/

/-- How rows show a ticker's balance after: not at all, once, as not known, or more than once. -/
inductive States
  | absent
  | once (value : ℚ)
  | hidden
  | twice

/-- The rows of a ticker show its balance after in this way, and one of them carries it. -/
def States.Holds (tick : Tick) (rows : List Delta) : States → Prop
  | absent => rows = []
  | once value =>
    (∃ c, rows.find? (isCarrier rows tick) = some c ∧ c.afterUnknown = false) ∧
      postStates tick rows = [value] ∧
      ∀ debit, postStates tick (editFirst (isCarrier rows tick) (Delta.debit debit) rows) = [value + debit.value]
  | hidden =>
    (∃ c, rows.find? (isCarrier rows tick) = some c ∧ c.afterUnknown) ∧ postStates tick rows = []
  | twice =>
    (∃ c, rows.find? (isCarrier rows tick) = some c ∧ c.afterUnknown = false) ∧
      (postStates tick rows).length = 2 ∧
      ∀ debit, (postStates tick (editFirst (isCarrier rows tick) (Delta.debit debit) rows)).length = 2

/-! ### Rows that carry a balance -/

section Carriers

variable {tick : Tick}

theorem postStates_cons (tick : Tick) (d : Delta) (rows : List Delta) :
    postStates tick (d :: rows) =
      (if d.tick = tick then (d.after.map DecimalText.value).toList else []) ++ postStates tick rows := by
  rw [postStates, postStates, filter_cons]
  by_cases htick : d.tick = tick
  · rw [if_pos (by simpa using htick), if_pos htick, filterMap_cons]
    rcases d.after <;> rfl
  · rw [if_neg (by simpa using htick), if_neg htick]
    rfl

theorem postStates_append (tick : Tick) (xs ys : List Delta) :
    postStates tick (xs ++ ys) = postStates tick xs ++ postStates tick ys := by
  rw [postStates, filter_append, List.filterMap_append]
  rfl

theorem editFirst_append {p : Delta → Bool} {f : Delta → Delta} {pre rest : List Delta} {d : Delta}
    (hpre : ∀ x ∈ pre, p x = false) (hd : p d) :
    editFirst p f (pre ++ d :: rest) = pre ++ f d :: rest := by
  induction pre with
  | nil => rw [nil_append, nil_append, editFirst, if_pos hd]
  | cons x pre ih =>
    rw [List.cons_append, List.cons_append, editFirst, hpre x (.head _),
      ih fun y hy => hpre y (.tail x hy)]
    rfl

theorem find?_append {p : Delta → Bool} {pre rest : List Delta} {d : Delta}
    (hpre : ∀ x ∈ pre, p x = false) (hd : p d) : (pre ++ d :: rest).find? p = some d := by
  have hnone : pre.find? p = none :=
    List.find?_eq_none.mpr fun x hx h => Bool.false_ne_true ((hpre x hx).symm.trans h)
  rw [List.find?_append, hnone, Option.none_or, List.find?_cons_of_pos hd]

/-- An own row of the ticker carries its balance after. -/
theorem isCarrier_of_own {rows : List Delta} {d : Delta} (hd : d ∈ rows) (htick : d.tick = tick)
    (hown : d.isFee = false) (x : Delta) : isCarrier rows tick x = (x.tick = tick ∧ x.isFee = false : Bool) := by
  have hany : rows.any fun d => d.tick = tick ∧ ¬d.isFee :=
    any_eq_true.mpr ⟨d, hd, by simp [htick, hown]⟩
  rw [isCarrier, if_pos hany]
  simp

/-- Without an own row the miner fee's does. -/
theorem isCarrier_of_fees {rows : List Delta} (hfees : ∀ d ∈ rows, d.isFee) (x : Delta) :
    isCarrier rows tick x = (x.tick = tick ∧ x.isFee ∧ x.before ≠ none : Bool) := by
  have hany : ¬rows.any fun d => d.tick = tick ∧ ¬d.isFee := by
    intro hany
    obtain ⟨d, hd, h⟩ := any_eq_true.mp hany
    exact (of_decide_eq_true h).2 (hfees d hd)
  rw [isCarrier, if_neg hany]

variable {pre rest : List Delta} {d : Delta} {after : DecimalText}

/-- The balance after is on the row that carries it, and on no other. -/
theorem States.holds_once (hpre : ∀ x ∈ pre, isCarrier (pre ++ d :: rest) tick x = false)
    (hd : isCarrier (pre ++ d :: rest) tick d) (hknown : d.afterUnknown = false)
    (hafter : d.after = some after) (hnone : postStates tick pre = [] ∧ postStates tick rest = []) :
    (States.once after.value).Holds tick (pre ++ d :: rest) := by
  have htick := tick_of_isCarrier hd
  refine ⟨⟨d, find?_append hpre hd, hknown⟩, ?_, fun debit => ?_⟩
  · rw [postStates_append, postStates_cons, hnone.1, hnone.2, if_pos htick, hafter]
    rfl
  · have hdebit : (d.debit debit).after = some (addStr after debit) := by
      rw [Delta.debit, hafter]
      rfl
    have hsame : (d.debit debit).tick = tick := htick
    rw [editFirst_append hpre hd, postStates_append, postStates_cons, hnone.1, hnone.2, if_pos hsame, hdebit]
    simp

/-- Another row beside the one that carries the balance shows one, too. -/
theorem States.holds_twice (hpre : ∀ x ∈ pre, isCarrier (pre ++ d :: rest) tick x = false)
    (hd : isCarrier (pre ++ d :: rest) tick d) (hknown : d.afterUnknown = false)
    (hafter : d.after = some after)
    (hone : (postStates tick pre).length + (postStates tick rest).length = 1) :
    States.twice.Holds tick (pre ++ d :: rest) := by
  have htick := tick_of_isCarrier hd
  refine ⟨⟨d, find?_append hpre hd, hknown⟩, ?_, fun debit => ?_⟩
  · rw [postStates_append, postStates_cons, if_pos htick, hafter]
    simp only [List.length_append, Option.map_some, Option.toList_some, List.length_singleton]
    omega
  · have hsame : (d.debit debit).tick = tick := htick
    rw [editFirst_append hpre hd, postStates_append, postStates_cons, if_pos hsame]
    simp only [List.length_append, Delta.debit, Option.map_some, Option.toList_some, List.length_singleton]
    omega

/-- The row that carries the balance says that it is not known. -/
theorem States.holds_hidden (hpre : ∀ x ∈ pre, isCarrier (pre ++ d :: rest) tick x = false)
    (hd : isCarrier (pre ++ d :: rest) tick d) (hunknown : d.afterUnknown)
    (hnone : postStates tick (pre ++ d :: rest) = []) : States.hidden.Holds tick (pre ++ d :: rest) :=
  ⟨⟨d, find?_append hpre hd, hunknown⟩, hnone⟩

/-- `holds_once` where the first row carries the balance. -/
theorem States.holds_once_head (hd : isCarrier (d :: rest) tick d) (hknown : d.afterUnknown = false)
    (hafter : d.after = some after) (hnone : postStates tick rest = []) :
    (States.once after.value).Holds tick (d :: rest) :=
  @States.holds_once tick [] rest d after (fun _ hx => absurd hx List.not_mem_nil) hd hknown hafter ⟨rfl, hnone⟩

/-- `holds_hidden` where the first row carries the balance. -/
theorem States.holds_hidden_head (hd : isCarrier (d :: rest) tick d) (hunknown : d.afterUnknown)
    (hnone : postStates tick (d :: rest) = []) : States.hidden.Holds tick (d :: rest) :=
  @States.holds_hidden tick [] rest d (fun _ hx => absurd hx List.not_mem_nil) hd hunknown hnone

end Carriers

/-! ### The miner fee -/

/-- What an action's own rows are: one for each ticker that `Shown` names, which goes from the balance
before by what is moved. -/
structure OwnRows (balMap : Balances) (coinTick : Option Tick) (Shown : Tick → Prop) (marked : Bool)
    (change : Tick → ℚ) (own : List Delta) : Prop where
  distinct : Keyed.Distinct Delta.tick own
  shown : ∀ tick, (∃ d ∈ own, d.tick = tick) ↔ Shown tick
  isFee : ∀ d ∈ own, d.isFee = false
  afterUnknown : ∀ d ∈ own, d.afterUnknown = false
  isCoin : ∀ d ∈ own, d.isCoin = (marked && decide (coinTick = some d.tick))
  after : ∀ d ∈ own, ∃ after, d.after = some after ∧
    after.value = (balMap.before d.tick).value + change d.tick
  change_eq_zero : ∀ tick, ¬Shown tick → change tick = 0

/-- What a miner fee is for a ticker. -/
inductive FeeAt
  | free
  | charged (amount : ℚ)
  | unknown

/-- What an amount is worth; a malformed one is worth nothing. -/
def feeValue (amount : String) : ℚ := (unsignedDecimal amount).elim 0 fun s => s.value

/-- The miner fee that the simulator takes off the coin. -/
def minerFee : FeeEstimate → FeeAt
  | .absent => .free
  | .unknown => .unknown
  | .amount fee => if fee = "" ∨ (numberOf fee).isZero then .free else .charged (feeValue fee)

/-- The miner fee that the simulator takes off a ticker. -/
def minerFeeAt (coinTick : Option Tick) (feeEstimate : FeeEstimate) (tick : Tick) : FeeAt :=
  if coinTick = some tick then minerFee feeEstimate else .free

/-- How a ticker's balance after is shown with the miner fee on it. -/
def minerStates (before change : ℚ) (shown folded : Bool) : FeeAt → States
  | .free => if shown then .once (before + change) else .absent
  | .charged fee =>
    if ¬shown then .once (before - fee)
    else if folded then .once (before + change - fee)
    else .twice
  | .unknown => if shown ∧ ¬folded then .once (before + change) else .hidden

/-- The own rows and the miner fee. -/
def feeBody (feeFirst : Bool) (own : List Delta) (balMap : Balances) (coinTick : Option Tick)
    (feeEstimate : FeeEstimate) : Option (List Delta) :=
  if feeFirst then (pushFeeRow [] balMap coinTick feeEstimate).map (· ++ own)
  else pushFeeRow own balMap coinTick feeEstimate

section MinerFee

variable {balMap : Balances} {coinTick : Option Tick} {Shown : Tick → Prop} {marked : Bool}
  {change : Tick → ℚ} {own rows : List Delta} {tick : Tick}

theorem value_of_neg {amount : String} {debit : DecimalText} (h : neg amount = some debit) :
    debit.value = -feeValue amount := by
  obtain ⟨s, hs, rfl⟩ := map_eq_some_iff.mp h
  rw [UnsignedText.value_negated, feeValue, hs]
  rfl

/-- The rows of a ticker that the action has a row of its own for. -/
theorem OwnRows.filter_eq (h : OwnRows balMap coinTick Shown marked change own) (tick : Tick) :
    own.filter (·.tick = tick) = [] ∧ ¬Shown tick ∨
      ∃ d after, own.filter (·.tick = tick) = [d] ∧ Shown tick ∧ d.tick = tick ∧ d.isFee = false ∧
        d.afterUnknown = false ∧ d.isCoin = (marked && decide (coinTick = some tick)) ∧
        d.after = some after ∧ after.value = (balMap.before tick).value + change tick := by
  have hfilter : own.filter (·.tick = tick) = _ := Keyed.Table.filter_key ⟨own, h.distinct⟩ tick
  rcases hget : Keyed.Table.get tick ⟨own, h.distinct⟩ with _ | d
  · refine .inl ⟨by rw [hfilter, hget]; rfl, fun hshown => ?_⟩
    obtain ⟨d, hd, htick⟩ := (h.shown tick).mpr hshown
    exact Keyed.Table.get_eq_none _ |>.mp hget d hd htick
  · obtain ⟨hd, rfl⟩ := (Keyed.Table.get_eq_some _).mp hget
    obtain ⟨after, hafter, hvalue⟩ := h.after d hd
    exact .inr ⟨d, after, by rw [hfilter, hget]; rfl, (h.shown d.tick).mp ⟨d, hd, rfl⟩, rfl, h.isFee d hd,
      h.afterUnknown d hd, h.isCoin d hd, hafter, hvalue⟩

/-- The row of the coin is seen from the rows of the coin. -/
theorem OwnRows.tick_of_isCoinRow (h : OwnRows balMap coinTick Shown marked change own) {d : Delta}
    (hd : d ∈ own) (hrow : isCoinRow d) : coinTick = some d.tick := by
  have hmark := (h.isCoin d hd).symm.trans (of_decide_eq_true hrow).1
  exact of_decide_eq_true (Bool.and_eq_true_iff.mp hmark).2

/-- The row of a fee on its own. -/
structure FeeRow (balMap : Balances) (coin : Tick) (fee : FeeAt) (row : Delta) : Prop where
  tick : row.tick = coin
  isFee : row.isFee
  before : row.before ≠ none
  after : fee = .unknown ∧ row.after = none ∧ row.afterUnknown ∨
    ∃ amount after, fee = .charged amount ∧ row.after = some after ∧ row.afterUnknown = false ∧
      after.value = (balMap.before coin).value - amount

/-- The edit of a fee that is folded into the coin's row, with the label row behind. -/
structure FeeFold (coin : Tick) (fee : FeeAt) (edit : Delta → Delta) (label : Delta) : Prop where
  tick : label.tick = coin
  isFee : label.isFee
  before : label.before = none
  after : label.after = none
  edit : fee = .unknown ∧ edit = Delta.forget ∨
    ∃ debit : DecimalText, fee = .charged (-debit.value) ∧ edit = Delta.debit debit

variable {feeEstimate : FeeEstimate}

/-- **What pushing a fee does**: nothing, or a debit of the coin's row, or a row beside the others. -/
theorem pushFeeRow_cases {coin : Tick}
    (h : pushFeeRow own balMap (some coin) feeEstimate = some rows) :
    minerFee feeEstimate = .free ∧ rows = own ∨
      own.any isCoinRow ∧ (∃ edit label, rows = editFirst isCoinRow edit own ++ [label] ∧
        FeeFold coin (minerFee feeEstimate) edit label) ∨
      ¬own.any isCoinRow ∧ ∃ row, rows = own ++ [row] ∧ FeeRow balMap coin (minerFee feeEstimate) row := by
  rcases feeEstimate with _ | _ | fee
  · cases h
    exact .inl ⟨rfl, rfl⟩
  · rw [pushFeeRow, some.injEq, pushUnknownFeeRow] at h
    subst h
    by_cases hany : own.any isCoinRow
    · rw [if_pos hany]
      exact .inr (.inl ⟨hany, _, _, rfl, rfl, rfl, rfl, rfl, .inl ⟨rfl, rfl⟩⟩)
    · rw [if_neg hany]
      exact .inr (.inr ⟨hany, _, rfl, rfl, rfl, some_ne_none _, .inl ⟨rfl, rfl, rfl⟩⟩)
  · rw [pushFeeRow] at h
    rw [minerFee]
    split at h
    · next hfree =>
      cases h
      exact .inl ⟨if_pos hfree, rfl⟩
    · next hcharged =>
      rw [if_neg hcharged]
      obtain ⟨debit, hdebit, rfl⟩ := map_eq_some_iff.mp h
      have hvalue : feeValue fee = -debit.value := by rw [value_of_neg hdebit, neg_neg]
      rw [pushKnownFeeRow]
      by_cases hany : own.any isCoinRow
      · rw [if_pos hany]
        exact .inr (.inl ⟨hany, _, _, rfl, rfl, rfl, rfl, rfl, .inr ⟨debit, by rw [hvalue], rfl⟩⟩)
      · rw [if_neg hany]
        refine .inr (.inr ⟨hany, _, rfl, rfl, rfl, some_ne_none _,
          .inr ⟨feeValue fee, _, rfl, rfl, rfl, ?_⟩⟩)
        rw [value_addStr, hvalue, sub_neg_eq_add]

/-- Where the coin's row is one that the fee is folded into. -/
theorem OwnRows.any_isCoinRow (h : OwnRows balMap coinTick Shown marked change own) :
    own.any isCoinRow ↔ marked ∧ ∃ coin, coinTick = some coin ∧ Shown coin := by
  constructor
  · intro hany
    obtain ⟨d, hd, hrow⟩ := any_eq_true.mp hany
    have hmark := (h.isCoin d hd).symm.trans (of_decide_eq_true hrow).1
    exact ⟨(Bool.and_eq_true_iff.mp hmark).1, d.tick, h.tick_of_isCoinRow hd hrow,
      (h.shown d.tick).mp ⟨d, hd, rfl⟩⟩
  · rintro ⟨hmarked, coin, hcoin, hshown⟩
    obtain ⟨d, hd, rfl⟩ := (h.shown coin).mpr hshown
    refine any_eq_true.mpr ⟨d, hd, decide_eq_true ⟨?_, by simp [h.isFee d hd]⟩⟩
    rw [h.isCoin d hd, hmarked, hcoin]
    simp

/-- The rows of the other tickers stay as they are. -/
theorem OwnRows.filter_pushFeeRow_of_ne (h : OwnRows balMap coinTick Shown marked change own)
    (hne : coinTick ≠ some tick) (hrows : pushFeeRow own balMap coinTick feeEstimate = some rows) :
    rows.filter (·.tick = tick) = own.filter (·.tick = tick) := by
  rcases coinTick with _ | coin
  · cases hrows
    rfl
  · have hother : coin ≠ tick := fun heq => hne (congrArg some heq)
    rcases pushFeeRow_cases hrows with ⟨-, rfl⟩ | ⟨-, edit, label, rfl, hfold⟩ | ⟨-, row, rfl, hrow⟩
    · rfl
    · have hlabel : [label].filter (·.tick = tick) = [] := by simp [hfold.tick, hother]
      rw [filter_append, hlabel, append_nil]
      refine filter_editFirst_of_not (fun d hd hrow => ?_) fun d => ?_
      · have htick : coin = d.tick := some.inj (h.tick_of_isCoinRow hd hrow)
        exact decide_eq_false (htick ▸ hother)
      · rcases hfold.edit with ⟨-, rfl⟩ | ⟨debit, -, rfl⟩ <;> rfl
    · have hlabel : [row].filter (·.tick = tick) = [] := by simp [hrow.tick, hother]
      rw [filter_append, hlabel, append_nil]

/-- The own row of a ticker, or none. -/
theorem OwnRows.holds_own (h : OwnRows balMap coinTick Shown marked change own) (tick : Tick) {shown : Bool}
    (hshown : shown ↔ Shown tick) :
    (if shown then States.once ((balMap.before tick).value + change tick) else .absent).Holds tick
      (own.filter (·.tick = tick)) := by
  rcases h.filter_eq tick with ⟨hnil, hnot⟩ | ⟨d, after, hone, hyes, htick, hfee, hknown, -, hafter, hvalue⟩
  · rw [if_neg (mt hshown.mp hnot), hnil]
    rfl
  · rw [if_pos (hshown.mpr hyes), hone, ← hvalue]
    refine States.holds_once_head ?_ hknown hafter rfl
    rw [isCarrier_of_own (List.mem_singleton_self d) htick hfee]
    simp [htick, hfee]

/-- A fee's row alone. -/
theorem FeeRow.holds {fee : FeeAt} {row : Delta} (h : FeeRow balMap tick fee row) (change : ℚ) :
    (minerStates (balMap.before tick).value change false false fee).Holds tick [row] := by
  have hcarrier : isCarrier [row] tick row := by
    rw [isCarrier_of_fees fun d hd => by rw [List.mem_singleton.mp hd]; exact h.isFee]
    simp [h.tick, h.isFee, h.before]
  rcases h.after with ⟨rfl, hafter, hunknown⟩ | ⟨amount, after, rfl, hafter, hknown, hvalue⟩
  · refine States.holds_hidden_head hcarrier hunknown ?_
    rw [postStates_cons, hafter]
    split <;> rfl
  · have hstates : minerStates (balMap.before tick).value change false false (.charged amount) =
        .once after.value := by
      rw [hvalue]
      rfl
    rw [hstates]
    exact States.holds_once_head hcarrier hknown hafter rfl

/-- A fee's row beside an own row of the coin, on either side of it. -/
theorem FeeRow.holds_beside {fee : FeeAt} {row d : Delta} {after : DecimalText} (pre rest : List Delta)
    (h : FeeRow balMap tick fee row) (hrow : pre = [row] ∧ rest = [] ∨ pre = [] ∧ rest = [row])
    (htick : d.tick = tick) (hfee : d.isFee = false) (hknown : d.afterUnknown = false)
    (hafter : d.after = some after) {change : ℚ} (hvalue : after.value = (balMap.before tick).value + change) :
    (minerStates (balMap.before tick).value change true false fee).Holds tick (pre ++ d :: rest) := by
  have hmem : d ∈ pre ++ d :: rest := List.mem_append_right _ (.head _)
  have hother : isCarrier (pre ++ d :: rest) tick row = false := by
    rw [isCarrier_of_own hmem htick hfee]
    simp [h.isFee]
  have hpre : ∀ x ∈ pre, isCarrier (pre ++ d :: rest) tick x = false := by
    intro x hx
    rcases hrow with ⟨rfl, rfl⟩ | ⟨rfl, rfl⟩
    · rw [List.mem_singleton.mp hx]
      exact hother
    · exact absurd hx List.not_mem_nil
  have hd : isCarrier (pre ++ d :: rest) tick d := by
    rw [isCarrier_of_own hmem htick hfee]
    simp [htick, hfee]
  rcases h.after with ⟨rfl, hnone, -⟩ | ⟨amount, charged, rfl, hcharged, -, -⟩
  · -- the fee is not known, and the own row shows a balance without it
    have hstates : minerStates (balMap.before tick).value change true false .unknown = .once after.value := by
      rw [hvalue]
      rfl
    have hempty : postStates tick [row] = [] := by
      rw [postStates_cons, hnone]
      split <;> rfl
    rw [hstates]
    refine States.holds_once hpre hd hknown hafter ?_
    rcases hrow with ⟨rfl, rfl⟩ | ⟨rfl, rfl⟩
    · exact ⟨hempty, rfl⟩
    · exact ⟨rfl, hempty⟩
  · refine States.holds_twice hpre hd hknown hafter ?_
    have hlength : (postStates tick [row]).length = 1 := by
      rw [postStates_cons, if_pos h.tick, hcharged]
      rfl
    rcases hrow with ⟨rfl, rfl⟩ | ⟨rfl, rfl⟩
    · rw [hlength]
      rfl
    · rw [hlength]
      rfl

/-- A fee that is folded into the own row of the coin. -/
theorem FeeFold.holds {fee : FeeAt} {edit : Delta → Delta} {label d : Delta} {after : DecimalText}
    (h : FeeFold tick fee edit label) (htick : d.tick = tick) (hfee : d.isFee = false)
    (hknown : d.afterUnknown = false) (hafter : d.after = some after) {before change : ℚ}
    (hvalue : after.value = before + change) :
    (minerStates before change true true fee).Holds tick [edit d, label] := by
  have hsame : (edit d).tick = tick ∧ (edit d).isFee = false := by
    rcases h.edit with ⟨-, rfl⟩ | ⟨debit, -, rfl⟩
    · exact ⟨htick, hfee⟩
    · exact ⟨htick, hfee⟩
  have hcarrier : isCarrier [edit d, label] tick (edit d) := by
    rw [isCarrier_of_own (.head _) hsame.1 hsame.2]
    simp [hsame.1, hsame.2]
  have hlabel : postStates tick [label] = [] := by
    rw [postStates_cons, h.after]
    split <;> rfl
  rcases h.edit with ⟨rfl, rfl⟩ | ⟨debit, rfl, rfl⟩
  · refine States.holds_hidden_head hcarrier rfl ?_
    rw [postStates_cons, hlabel, append_nil]
    split <;> rfl
  · have hdebit : (d.debit debit).after = some (addStr after debit) := by
      rw [Delta.debit, hafter]
      rfl
    have hstates : minerStates before change true true (.charged (-debit.value)) =
        .once (addStr after debit).value := by
      rw [value_addStr, hvalue, ← sub_neg_eq_add]
      rfl
    rw [hstates]
    exact States.holds_once_head hcarrier hknown hdebit hlabel

/-- **How a ticker is shown with the miner fee.** -/
theorem OwnRows.holds_feeBody (h : OwnRows balMap coinTick Shown marked change own)
    {feeFirst : Bool} (hrows : feeBody feeFirst own balMap coinTick feeEstimate = some rows)
    (tick : Tick) {shown : Bool} (hshown : shown ↔ Shown tick) :
    (minerStates (balMap.before tick).value (change tick) shown (marked && !feeFirst)
      (minerFeeAt coinTick feeEstimate tick)).Holds tick (rows.filter (·.tick = tick)) := by
  have hnothing : OwnRows balMap coinTick (fun _ => False) false (fun _ => 0) [] :=
    ⟨.nil, by simp, by simp, by simp, by simp, by simp, by simp⟩
  have hown := h.holds_own tick hshown
  by_cases hcoin : coinTick = some tick
  · subst hcoin
    rw [minerFeeAt, if_pos rfl]
    rw [feeBody] at hrows
    by_cases hfirst : feeFirst
    · -- the fee's row stands before the own rows
      rw [if_pos hfirst] at hrows
      rw [hfirst, Bool.not_true, Bool.and_false]
      obtain ⟨fees, hfees, rfl⟩ := map_eq_some_iff.mp hrows
      rcases pushFeeRow_cases hfees with ⟨hfree, rfl⟩ | ⟨hany, -⟩ | ⟨-, row, rfl, hrow⟩
      · rw [hfree, nil_append]
        exact hown
      · cases hany
      · have hkept : [row].filter (·.tick = tick) = [row] := by simp [hrow.tick]
        rw [nil_append, filter_append, hkept]
        rcases h.filter_eq tick with
          ⟨hnil, hnot⟩ | ⟨d, after, hone, hyes, htick, hfee, hknown, -, hafter, hvalue⟩
        · rw [hnil, append_nil, Bool.eq_false_iff.mpr (mt hshown.mp hnot)]
          exact hrow.holds (change tick)
        · rw [hone, hshown.mpr hyes]
          exact hrow.holds_beside [row] [] (.inl ⟨rfl, rfl⟩) htick hfee hknown hafter hvalue
    · rw [if_neg hfirst] at hrows
      rw [Bool.eq_false_iff.mpr hfirst, Bool.not_false, Bool.and_true]
      rcases pushFeeRow_cases hrows with ⟨hfree, rfl⟩ | ⟨hany, edit, label, rfl, hfold⟩ | ⟨hany, row, rfl, hrow⟩
      · rw [hfree]
        exact hown
      · obtain ⟨hmarked, coin, hcoin, hyes⟩ := h.any_isCoinRow.mp hany
        obtain ⟨⟩ := hcoin
        rcases h.filter_eq tick with
          ⟨-, hnot⟩ | ⟨d, after, hone, -, htick, hfee, hknown, hmark, hafter, hvalue⟩
        · exact absurd hyes hnot
        · have hedit : ∀ d : Delta, (edit d).tick = d.tick := by
            intro d
            rcases hfold.edit with ⟨-, rfl⟩ | ⟨debit, -, rfl⟩ <;> rfl
          have hrow : isCoinRow d := decide_eq_true ⟨by simp [hmark, hmarked], by simp [hfee]⟩
          have hkept : [label].filter (·.tick = tick) = [label] := by simp [hfold.tick]
          have hcells : (editFirst isCoinRow edit own).filter (·.tick = tick) = [edit d] := by
            rw [filter_editFirst (fun x hx hx' => ?_) fun x => by rw [hedit], hone, editFirst, if_pos hrow]
            exact decide_eq_true (some.inj (h.tick_of_isCoinRow hx hx')).symm
          rw [filter_append, hcells, hkept, hshown.mpr hyes, hmarked]
          exact hfold.holds htick hfee hknown hafter hvalue
      · have hkept : [row].filter (·.tick = tick) = [row] := by simp [hrow.tick]
        rw [filter_append, hkept]
        rcases h.filter_eq tick with
          ⟨hnil, hnot⟩ | ⟨d, after, hone, hyes, htick, hfee, hknown, -, hafter, hvalue⟩
        · have hfolded : minerStates (balMap.before tick).value (change tick) false marked
              (minerFee feeEstimate) = minerStates (balMap.before tick).value (change tick) false false
                (minerFee feeEstimate) := by
            rcases minerFee feeEstimate <;> simp [minerStates]
          rw [hnil, nil_append, Bool.eq_false_iff.mpr (mt hshown.mp hnot), hfolded]
          exact hrow.holds (change tick)
        · have hmarked : marked = false := Bool.eq_false_iff.mpr fun hmarked =>
            hany (h.any_isCoinRow.mpr ⟨hmarked, tick, rfl, hyes⟩)
          rw [hone, hshown.mpr hyes, hmarked]
          exact hrow.holds_beside [] [row] (.inr ⟨rfl, rfl⟩) htick hfee hknown hafter hvalue
  · have hfree : minerFeeAt coinTick feeEstimate tick = .free := if_neg hcoin
    have hcells : rows.filter (·.tick = tick) = own.filter (·.tick = tick) := by
      rw [feeBody] at hrows
      split at hrows
      · obtain ⟨fees, hfees, rfl⟩ := map_eq_some_iff.mp hrows
        rw [filter_append, hnothing.filter_pushFeeRow_of_ne hcoin hfees]
        rfl
      · exact h.filter_pushFeeRow_of_ne hcoin hrows
    rw [hfree, hcells]
    exact hown

end MinerFee

/-! ### The protocol fee -/

/-- The protocol fee that the simulator takes off a ticker. -/
def protocolFeeAt (coinTick : Option Tick) (protocolFee : Option ProtocolFee) (tick : Tick) : Option ℚ :=
  protocolFee.bind fun fee =>
    if str fee.amount = "" ∨ ¬(numberOf (str fee.amount)).isPositive then none
    else if (upper fee.tick).or coinTick = some tick then some (feeValue (str fee.amount))
    else none

/-- How a ticker's balance after is shown with the protocol fee on it. -/
def States.pay (before : ℚ) : Option ℚ → States → States
  | none, s => s
  | some fee, absent => once (before - fee)
  | some fee, once value => once (value - fee)
  | some _, hidden => hidden
  | some _, twice => twice

/-- What is shown of a ticker's balance after. -/
def States.Shows (values : List ℚ) : States → Prop
  | absent => values = []
  | once value => values = [value]
  | hidden => values = []
  | twice => values.length = 2

section ProtocolFee

variable {balMap : Balances} {coinTick : Option Tick} {deltas rows : List Delta} {tick : Tick} {s : States}

theorem States.Holds.shows (h : s.Holds tick rows) : s.Shows (postStates tick rows) := by
  rcases s with _ | value | _ | _
  · have hnil : rows = [] := h
    subst hnil
    rfl
  · exact h.2.1
  · exact h.2
  · exact h.2.1

theorem postStates_filter (tick : Tick) (deltas : List Delta) :
    postStates tick (deltas.filter (·.tick = tick)) = postStates tick deltas := by
  rw [postStates, postStates, List.filter_filter]
  simp only [Bool.and_self]

/-- The row that carries the balance is the one among the rows of the ticker. -/
theorem find?_isCarrier (deltas : List Delta) (tick : Tick) : deltas.find? (isCarrier deltas tick) =
      (deltas.filter (·.tick = tick)).find? (isCarrier (deltas.filter (·.tick = tick)) tick) := by
  rw [isCarrier_filter, List.find?_filter]
  refine congrArg (List.find? · deltas) (funext fun d => ?_)
  by_cases hcarrier : isCarrier deltas tick d
  · simp [hcarrier, tick_of_isCarrier hcarrier]
  · simp [hcarrier]

theorem postStates_editFirst_isCarrier (debit : DecimalText) (deltas : List Delta) (tick : Tick) :
    postStates tick (editFirst (isCarrier deltas tick) (Delta.debit debit) deltas) =
      postStates tick (editFirst (isCarrier (deltas.filter (·.tick = tick)) tick) (Delta.debit debit)
        (deltas.filter (·.tick = tick))) := by
  have hedit := @filter_editFirst deltas (isCarrier deltas tick) (fun d => d.tick = tick)
    (Delta.debit debit) (fun d _ hd => decide_eq_true (tick_of_isCarrier hd)) fun d => rfl
  rw [← postStates_filter, hedit, isCarrier_filter]

variable {amount : String}

/-- **How a ticker is shown with the protocol fee.** -/
theorem shows_foldProtocolFee {isCoin : Bool} (hs : s.Holds tick (deltas.filter (·.tick = tick)))
    (h : foldProtocolFee deltas balMap tick isCoin amount = some rows) :
    (s.pay (balMap.before tick).value (some (feeValue amount))).Shows (postStates tick rows) := by
  have hlabel : (protocolFeeRow tick isCoin amount).after = none := rfl
  rw [foldProtocolFee, find?_isCarrier] at h
  rcases s with _ | value | _ | _
  · -- nothing else shows the ticker: the fee's row does
    have hnil : deltas.filter (·.tick = tick) = [] := hs
    rw [hnil] at h
    obtain ⟨debit, hdebit, rfl⟩ := map_eq_some_iff.mp h
    rw [States.pay, States.Shows, postStates_insertAfter_self hnil rfl, sub_eq_add_neg,
      ← value_of_neg hdebit]
    simp
  · obtain ⟨⟨c, hcarrier, hknown⟩, -, hdebited⟩ := hs
    rw [hcarrier] at h
    simp only [hknown, Bool.false_eq_true, if_false] at h
    obtain ⟨debit, hdebit, rfl⟩ := map_eq_some_iff.mp h
    rw [States.pay, States.Shows, postStates_insertAfter hlabel, postStates_editFirst_isCarrier,
      hdebited debit, value_of_neg hdebit, sub_eq_add_neg]
  · obtain ⟨⟨c, hcarrier, hunknown⟩, hstates⟩ := hs
    rw [hcarrier] at h
    simp only [hunknown, if_true, some.injEq] at h
    rw [← h, States.pay, States.Shows, postStates_insertAfter hlabel, ← postStates_filter]
    exact hstates
  · obtain ⟨⟨c, hcarrier, hknown⟩, -, hdebited⟩ := hs
    rw [hcarrier] at h
    simp only [hknown, Bool.false_eq_true, if_false] at h
    obtain ⟨debit, -, rfl⟩ := map_eq_some_iff.mp h
    rw [States.pay, States.Shows, postStates_insertAfter hlabel, postStates_editFirst_isCarrier]
    exact hdebited debit

/-- The rows of other tickers stay as they are. -/
theorem filter_foldProtocolFee_of_ne {isCoin : Bool} {paid : Tick} (hne : paid ≠ tick)
    (h : foldProtocolFee deltas balMap paid isCoin amount = some rows) :
    rows.filter (·.tick = tick) = deltas.filter (·.tick = tick) := by
  have hrow : (protocolFeeRow paid isCoin amount).tick ≠ tick := hne
  rw [foldProtocolFee] at h
  split at h
  · split at h
    · cases h
      exact filter_insertAfter_of_ne hrow deltas
    · obtain ⟨debit, -, rfl⟩ := map_eq_some_iff.mp h
      rw [filter_insertAfter_of_ne hrow]
      refine filter_editFirst_of_not (fun d _ hd => ?_) fun d => rfl
      exact decide_eq_false ((tick_of_isCarrier hd).trans_ne hne)
  · obtain ⟨debit, -, rfl⟩ := map_eq_some_iff.mp h
    exact filter_insertAfter_of_ne hne deltas

theorem shows_applyProtocolFee {protocolFee : Option ProtocolFee}
    (hs : s.Holds tick (deltas.filter (·.tick = tick)))
    (h : applyProtocolFee deltas balMap coinTick protocolFee = some rows) :
    (s.pay (balMap.before tick).value (protocolFeeAt coinTick protocolFee tick)).Shows
      (postStates tick rows) := by
  have hshows : s.Shows (postStates tick deltas) := by
    rw [← postStates_filter]
    exact hs.shows
  rcases protocolFee with _ | fee
  · cases h
    exact hshows
  · rw [applyProtocolFee] at h
    rw [protocolFeeAt, Option.bind_some]
    split at h
    · next hnone =>
      cases h
      rw [if_pos hnone]
      exact hshows
    · next hsome =>
      rw [if_neg hsome]
      rcases hpaid : (upper fee.tick).or coinTick with _ | paid
      · rw [hpaid] at h
        cases h
        exact hshows
      · rw [hpaid] at h
        by_cases heq : paid = tick
        · subst heq
          rw [if_pos rfl]
          exact shows_foldProtocolFee hs h
        · rw [if_neg fun h => heq (some.inj h), States.pay, ← postStates_filter,
            filter_foldProtocolFee_of_ne heq h, postStates_filter]
          exact hshows

theorem neg_eq_none : neg amount = none ↔ unsignedDecimal amount = none := Option.map_eq_none_iff

theorem foldProtocolFee_eq_none {isCoin : Bool} (hs : s.Holds tick (deltas.filter (·.tick = tick))) :
    foldProtocolFee deltas balMap tick isCoin amount = none ↔
      unsignedDecimal amount = none ∧ s ≠ .hidden := by
  rw [foldProtocolFee, find?_isCarrier]
  rcases s with _ | value | _ | _
  · have hnil : deltas.filter (·.tick = tick) = [] := hs
    rw [hnil]
    simp [neg_eq_none]
  · obtain ⟨⟨c, hcarrier, hknown⟩, -, -⟩ := hs
    rw [hcarrier]
    simp [hknown, neg_eq_none]
  · obtain ⟨⟨c, hcarrier, hunknown⟩, -⟩ := hs
    rw [hcarrier]
    simp [hunknown]
  · obtain ⟨⟨c, hcarrier, hknown⟩, -, -⟩ := hs
    rw [hcarrier]
    simp [hknown, neg_eq_none]

/-- A protocol fee throws where it is malformed, unless the balance after is not known anyway. -/
theorem applyProtocolFee_eq_none (balMap : Balances) (coinTick : Option Tick)
    (protocolFee : Option ProtocolFee) {states : Tick → States}
    (hs : ∀ tick, (states tick).Holds tick (deltas.filter (·.tick = tick))) :
    applyProtocolFee deltas balMap coinTick protocolFee = none ↔
      ∃ fee paid, protocolFee = some fee ∧ str fee.amount ≠ "" ∧
        (numberOf (str fee.amount)).isPositive ∧ (upper fee.tick).or coinTick = some paid ∧
        unsignedDecimal (str fee.amount) = none ∧ states paid ≠ .hidden := by
  rcases protocolFee with _ | fee
  · simp [applyProtocolFee]
  · rw [applyProtocolFee]
    by_cases hnone : str fee.amount = "" ∨ ¬(numberOf (str fee.amount)).isPositive
    · rw [if_pos hnone]
      refine iff_of_false (some_ne_none _) ?_
      rintro ⟨fee', paid, hfee, hne, hpositive, -⟩
      obtain ⟨⟩ := hfee
      exact hnone.elim hne fun h => h hpositive
    · rw [if_neg hnone]
      obtain ⟨hne, hpositive⟩ := not_or.mp hnone
      rcases hpaid : (upper fee.tick).or coinTick with _ | paid
      · refine iff_of_false (some_ne_none _) ?_
        rintro ⟨fee', paid, hfee, -, -, hpaid', -⟩
        obtain ⟨⟩ := hfee
        rw [hpaid] at hpaid'
        cases hpaid'
      · refine (foldProtocolFee_eq_none (hs paid)).trans ⟨fun h => ?_, ?_⟩
        · exact ⟨fee, paid, rfl, hne, not_not.mp hpositive, hpaid, h⟩
        · rintro ⟨fee', paid', hfee, -, -, hpaid', h⟩
          obtain ⟨⟩ := hfee
          obtain rfl := some.inj (hpaid.symm.trans hpaid')
          exact h

end ProtocolFee

/-! ### Balances that could not be read -/

section Unknown

variable {deltas : List Delta} {tick : Tick}

theorem postStates_eq_nil (h : ∀ d ∈ deltas, d.tick = tick → d.after = none) : postStates tick deltas = [] := by
  refine List.filterMap_eq_nil_iff.mpr fun d hd => ?_
  obtain ⟨hmem, htick⟩ := List.mem_filter.mp hd
  rw [h d hmem (of_decide_eq_true htick)]
  rfl

theorem Delta.after_blank {d : Delta} (h : d.tick = tick) : (d.blank tick).after = none := by
  rw [Delta.blank, if_neg (not_not.mpr h)]
  split
  · rfl
  · split
    · rfl
    · next hshown => exact not_not.mp (not_or.mp hshown).2

theorem Delta.tick_blank (d : Delta) (tick : Tick) : (d.blank tick).tick = d.tick := by
  rw [Delta.blank]
  split
  · rfl
  · split
    · rfl
    · split <;> rfl

/-- A blanked balance is shown nowhere. -/
theorem postStates_blankUnknownBalance_self (deltas : List Delta) (isCoin : Bool) :
    postStates tick (blankUnknownBalance deltas (tick, isCoin)) = [] := by
  have hblank : ∀ d ∈ deltas.map (Delta.blank tick), d.tick = tick → d.after = none := by
    intro d hd htick
    obtain ⟨d', -, rfl⟩ := List.mem_map.mp hd
    exact Delta.after_blank ((Delta.tick_blank d' tick).symm.trans htick)
  rw [blankUnknownBalance]
  split
  · next hnone =>
    refine postStates_eq_nil fun d hd htick => ?_
    by_contra hafter
    exact hnone (any_eq_true.mpr ⟨d, hd, by simp [touches, htick, hafter]⟩)
  · split
    · exact postStates_eq_nil hblank
    · refine postStates_eq_nil fun d hd htick => ?_
      rcases List.mem_append.mp hd with hd | hd
      · exact hblank d ((List.takeWhile_sublist _).mem hd) htick
      · rcases List.mem_cons.mp hd with rfl | hd
        · rfl
        · exact hblank d ((List.dropWhile_sublist _).mem hd) htick

theorem postStates_blankUnknownBalance_of_ne {unknown : Tick × Bool} (hne : unknown.1 ≠ tick) :
    postStates tick (blankUnknownBalance deltas unknown) = postStates tick deltas := by
  have hblank : (deltas.map (Delta.blank unknown.1)).filter (·.tick = tick) =
      deltas.filter (·.tick = tick) := by
    induction deltas with
    | nil => rfl
    | cons d deltas ih =>
      rw [List.map_cons, filter_cons, filter_cons, ih, Delta.tick_blank]
      by_cases htick : d.tick = tick
      · have hsame : d.blank unknown.1 = d := by
          rw [Delta.blank, if_pos (htick.trans_ne hne.symm)]
        rw [hsame]
      · simp [htick]
  rw [blankUnknownBalance]
  split
  · rfl
  · split
    · rw [postStates, hblank]
      rfl
    · rw [postStates_append, postStates_cons, if_neg hne, nil_append, ← postStates_append,
        List.takeWhile_append_dropWhile, postStates, hblank]
      rfl

/-- The tickers that could not be read. -/
theorem exists_mem_unknownTicks (balances : List BalanceLookup) (coinTick : Option Tick) (tick : Tick) :
    (∃ unknown ∈ (unknownTicks balances coinTick).records, unknown.1 = tick) ↔
      ∃ b ∈ balances, b.unknown ∧ unknownTick coinTick b = some tick := by
  have hput : ∀ (t : Keyed.Table (Prod.fst : Tick × Bool → Tick)) (entry : Tick × Bool),
      (∃ unknown ∈ (t.put entry).records, unknown.1 = tick) ↔
        (∃ unknown ∈ t.records, unknown.1 = tick) ∨ entry.1 = tick := by
    intro t entry
    constructor
    · rintro ⟨unknown, hmem, htick⟩
      rcases Keyed.Table.mem_put.mp hmem with rfl | ⟨hmem, -⟩
      · exact .inr htick
      · exact .inl ⟨unknown, hmem, htick⟩
    · intro h
      by_cases heq : entry.1 = tick
      · exact ⟨entry, Keyed.Table.mem_put.mpr (.inl rfl), heq⟩
      · obtain ⟨unknown, hmem, htick⟩ := h.resolve_right heq
        exact ⟨unknown, Keyed.Table.mem_put.mpr (.inr ⟨hmem, htick.trans_ne (Ne.symm heq)⟩), htick⟩
  have hfold : ∀ (bs : List BalanceLookup) (t : Keyed.Table (Prod.fst : Tick × Bool → Tick)),
      (∃ unknown ∈ (bs.foldl (addUnknown coinTick) t).records, unknown.1 = tick) ↔
        (∃ unknown ∈ t.records, unknown.1 = tick) ∨ ∃ b ∈ bs, unknownTick coinTick b = some tick := by
    intro bs
    induction bs with
    | nil => simp
    | cons b bs ih =>
      intro t
      rw [List.foldl_cons, ih, List.exists_mem_cons_iff, ← or_assoc]
      refine or_congr_left ?_
      rw [addUnknown]
      rcases unknownTick coinTick b with _ | tick'
      · simp
      · rw [hput, some.injEq]
  rw [unknownTicks, hfold]
  simp [Keyed.Table.empty, and_assoc]

/-- **A balance that could not be read is not shown, and the others stay.** -/
theorem postStates_blankUnknownBalances (deltas : List Delta) (balances : List BalanceLookup)
    (coinTick : Option Tick) (tick : Tick) :
    ((∃ b ∈ balances, b.unknown ∧ unknownTick coinTick b = some tick) →
        postStates tick (blankUnknownBalances deltas balances coinTick) = []) ∧
      ((¬∃ b ∈ balances, b.unknown ∧ unknownTick coinTick b = some tick) →
        postStates tick (blankUnknownBalances deltas balances coinTick) = postStates tick deltas) := by
  rw [← exists_mem_unknownTicks, blankUnknownBalances]
  generalize (unknownTicks balances coinTick).records = unknowns
  induction unknowns generalizing deltas with
  | nil => simp
  | cons unknown unknowns ih =>
    obtain ⟨hblanked, hkept⟩ := ih (blankUnknownBalance deltas unknown)
    rw [List.foldl_cons, List.exists_mem_cons_iff]
    by_cases heq : unknown.1 = tick
    · refine ⟨fun _ => ?_, fun hnot => absurd (.inl heq) hnot⟩
      by_cases hrest : ∃ unknown ∈ unknowns, unknown.1 = tick
      · exact hblanked hrest
      · obtain ⟨tick', isCoin⟩ := unknown
        obtain rfl : tick' = tick := heq
        rw [hkept hrest]
        exact postStates_blankUnknownBalance_self deltas isCoin
    · refine ⟨fun h => hblanked (h.resolve_left heq), fun hnot => ?_⟩
      rw [hkept fun h => hnot (.inr h), postStates_blankUnknownBalance_of_ne heq]

end Unknown

end XchainWallet.TxSimulator
