import XchainWallet.Decoder.DecimalStrings
import XchainWallet.Json.ToNumber
import XchainWallet.Keyed.Table

/-!
# The transaction simulator

`simulateAction` projects what an action does to the balances of its source address: a row of the
balance before and after for each ticker, and label rows for the fees. Every action has a handler that
starts from the full balances; a batch simulates its commands on one snapshot and adds up their rows.
A malformed amount or fee throws, and the whole simulation has no rows then.

Of a simulation the rows are here, without the side effects and the notes that stand beside them.
-/

namespace XchainWallet.TxSimulator

open Json

/-! ### Tickers and balances -/

/-- A ticker in upper case; the empty text counts as none. -/
structure Tick where
  text : String
  nonempty : text ≠ ""
  upper : upperCase text = text
deriving DecidableEq

theorem toUpper_toUpper (c : Char) : c.toUpper.toUpper = c.toUpper := by
  by_cases hlower : 97 ≤ c.toNat ∧ c.toNat ≤ 122
  · have hval : c.toUpper.toNat = c.toNat - 32 := by
      delta Char.toUpper
      rw [dif_pos (by simpa [UInt32.le_iff_toNat_le, ← Char.toNat_val] using hlower)]
      simp only [← Char.toNat_val, UInt32.toNat_add] at hlower ⊢
      have hliteral : UInt32.toNat ('A'.val - 'a'.val) = 4294967264 := by decide
      rw [hliteral]
      omega
    have hnot : ¬(c.toUpper.val ≥ 97 ∧ c.toUpper.val ≤ 122) := by
      simp only [ge_iff_le, UInt32.le_iff_toNat_le, Char.toNat_val, hval]
      simp
      omega
    generalize c.toUpper = d at hnot ⊢
    delta Char.toUpper
    exact dif_neg hnot
  · have hsame : c.toUpper = c := by
      delta Char.toUpper
      exact dif_neg (by simpa [UInt32.le_iff_toNat_le, ← Char.toNat_val] using hlower)
    rw [hsame, hsame]

theorem upperCase_upperCase (s : String) : upperCase (upperCase s) = upperCase s := by
  rw [upperCase, upperCase, String.toList_ofList, List.map_map]
  exact congrArg String.ofList (List.map_congr_left fun c _ => toUpper_toUpper c)

/-- `text.toUpperCase()`, where it is not empty. -/
def Tick.ofText (text : String) : Option Tick :=
  if h : upperCase text ≠ "" then some ⟨upperCase text, h, upperCase_upperCase text⟩ else none

theorem Tick.ofText_text (tick : Tick) : Tick.ofText tick.text = some tick := by
  rw [ofText, dif_pos (by rw [tick.upper]; exact tick.nonempty)]
  exact congrArg some (Tick.mk.injEq .. ▸ tick.upper)

def protocolCoinTicker (coin : String) : Option String :=
  if coin = "bitcoin" then some "BTC"
  else if coin = "litecoin" then some "LTC"
  else if coin = "dogecoin" then some "DOGE"
  else none

/-- A balance as the caller reads it. Of the coin's row neither is there where it could not be read. -/
structure BalanceLookup where
  tick : String
  amount : Option DecimalText
  isCoin : Bool
  unknown : Bool

/-- The balances by their tickers, in the order of their first rows. -/
abbrev Balances := Keyed.Table (Prod.fst : Tick × DecimalText → Tick)

def Balances.amount (balMap : Balances) (tick : Tick) : Option DecimalText :=
  (balMap.get tick).map Prod.snd

/-- `balMap.get(tick) || '0'`. -/
def Balances.before (balMap : Balances) (tick : Tick) : DecimalText := (balMap.amount tick).getD zero

def inferCoinTick (balances : List BalanceLookup) : Option Tick :=
  (balances.find? BalanceLookup.isCoin).bind fun row => Tick.ofText row.tick

/-- The coin of the chain's descriptor, else the one of the balances. -/
def coinTickOf (chain : Option String) (balances : List BalanceLookup) : Option Tick :=
  (chain.bind fun coin => Tick.ofText ((protocolCoinTicker coin).getD coin)).or (inferCoinTick balances)

def indexBalance (balMap : Balances) (b : BalanceLookup) : Balances :=
  match Tick.ofText b.tick with
  | some tick => balMap.put (tick, b.amount.getD zero)
  | none => balMap

def addCoin (balMap : Balances) : Option Tick → Balances
  | some coin => if (balMap.get coin).isSome then balMap else balMap.put (coin, zero)
  | none => balMap

def indexBalances (balances : List BalanceLookup) (coinTick : Option Tick) : Balances :=
  addCoin (balances.foldl indexBalance .empty) coinTick

def balancesFromMap (balMap : Balances) : List BalanceLookup :=
  balMap.records.map fun entry => ⟨entry.1.text, some entry.2, false, false⟩

/-! ### Rows -/

/-- A row of the projection; `none` is the empty text. -/
structure Delta where
  tick : Tick
  before : Option DecimalText
  after : Option DecimalText
  isCoin : Bool
  isFee : Bool
  feeAmount : Option String := none
  feeLabel : Option String := none
  isProtocolFee : Bool := false
  afterUnknown : Bool := false
  beforeUnknown : Bool := false
  feeUnknown : Bool := false
deriving DecidableEq

/-- The miner fee: not projected, not known, or a text. -/
inductive FeeEstimate
  | absent
  | unknown
  | amount (text : String)
deriving DecidableEq

structure ProtocolFee where
  amount : Option String
  tick : Option String

/-- The parameters of an action, through `String(value)`. -/
abbrev Fields := String → Option String

def str (value : Option String) : String := value.getD ""

def upper (value : Option String) : Option Tick := Tick.ofText (str value)

def deltaRow (tick : Tick) (balMap : Balances) (signedDelta : DecimalText) (isCoin : Bool) : Delta :=
  { tick, before := balMap.before tick, after := addStr (balMap.before tick) signedDelta, isCoin
    isFee := false }

/-- Change the first row that `p` holds of. -/
def editFirst (p : Delta → Bool) (f : Delta → Delta) : List Delta → List Delta
  | [] => []
  | d :: deltas => if p d then f d :: deltas else d :: editFirst p f deltas

/-- Take an amount off the balance after; an empty one is read as zero. -/
def Delta.debit (delta : DecimalText) (d : Delta) : Delta :=
  { d with after := some (addStr (d.after.getD zero) delta) }

def Delta.forget (d : Delta) : Delta := { d with after := none, afterUnknown := true }

/-- The row of the coin that the action's own changes are in. -/
def isCoinRow (d : Delta) : Bool := d.isCoin ∧ ¬d.isFee

def pushUnknownFeeRow (deltas : List Delta) (balMap : Balances) (coin : Tick) : List Delta :=
  if deltas.any isCoinRow then
    editFirst isCoinRow Delta.forget deltas ++
      [{ tick := coin, before := none, after := none, isCoin := true, isFee := true, feeUnknown := true }]
  else
    deltas ++ [{ tick := coin, before := balMap.before coin, after := none, isCoin := true, isFee := true
                 feeUnknown := true, afterUnknown := true }]

/-- The debit of a fee, on the coin's row or on its own. -/
def pushKnownFeeRow (deltas : List Delta) (balMap : Balances) (coin : Tick) (fee : String)
    (debit : DecimalText) : List Delta :=
  if deltas.any isCoinRow then
    editFirst isCoinRow (Delta.debit debit) deltas ++
      [{ tick := coin, before := none, after := none, isCoin := true, isFee := true, feeAmount := fee }]
  else
    deltas ++ [{ deltaRow coin balMap debit true with isFee := true, feeAmount := fee }]

def pushFeeRow (deltas : List Delta) (balMap : Balances) :
    Option Tick → FeeEstimate → Option (List Delta)
  | none, _ => some deltas
  | some _, .absent => some deltas
  | some coin, .unknown => some (pushUnknownFeeRow deltas balMap coin)
  | some coin, .amount fee =>
    if fee = "" ∨ (numberOf fee).isZero then some deltas
    else (neg fee).map (pushKnownFeeRow deltas balMap coin fee)

/-! ### Actions -/

/-- What an action moves: nothing where its ticker or its amount is missing. -/
def moved (tick : Option Tick) (amount : String) (signed : String → Option DecimalText) :
    Option (Option (Tick × DecimalText)) :=
  match tick with
  | none => some none
  | some tick => if amount = "" then some none else (signed amount).map fun delta => some (tick, delta)

/-- The row of what an action moves. -/
def movedRow (balMap : Balances) (isCoin : Bool) (move : Option (Tick × DecimalText)) : List Delta :=
  move.toList.map fun m => deltaRow m.1 balMap m.2 isCoin

variable (p : Fields) (balMap : Balances) (coinTick : Option Tick) (feeEstimate : FeeEstimate)

def simulateSend : Option (List Delta) := do
  let move ← moved (upper (p "TICK")) (str (p "AMOUNT")) neg
  pushFeeRow (movedRow balMap (upper (p "TICK") = coinTick) move) balMap coinTick feeEstimate

/-- A flag of a sweep, with its default where it is missing. -/
def flagOn (value : Option String) (dflt : Bool) : Bool := if str value = "" then dflt else str value = "1"

/-- Every balance but the coin's goes to zero. -/
def sweepRows : List Delta :=
  (balMap.records.filter fun entry => some entry.1 ≠ coinTick).map fun entry =>
    { tick := entry.1, before := entry.2, after := zero, isCoin := false, isFee := false }

def simulateSweep : Option (List Delta) :=
  pushFeeRow (if flagOn (p "BALANCES") true then sweepRows balMap coinTick else []) balMap coinTick
    feeEstimate

/-- With a destination the minted supply does not come to the source. -/
def mintMoved : Option (Option (Tick × DecimalText)) :=
  if str (p "DESTINATION") = "" then moved (upper (p "TICK")) (str (p "AMOUNT")) pos else some none

def simulateMint : Option (List Delta) := do
  let move ← mintMoved p
  pushFeeRow (movedRow balMap false move) balMap coinTick feeEstimate

def simulateDestroy : Option (List Delta) := do
  let move ← moved (upper (p "TICK")) (str (p "AMOUNT")) neg
  pushFeeRow (movedRow balMap false move) balMap coinTick feeEstimate

/-- `str(p.VERSION) || '0'`. -/
def version : String := if str (p "VERSION") = "" then "0" else str (p "VERSION")

/-- The initial mint goes to the source unless it is routed elsewhere. -/
def issueMoved : Option (Option (Tick × DecimalText)) :=
  if version p = "0" ∧ str (p "TRANSFER_SUPPLY") = "" then
    moved (upper (p "TICK")) (str (p "MINT_SUPPLY")) pos
  else some none

def simulateIssue : Option (List Delta) := do
  let fees ← pushFeeRow [] balMap coinTick feeEstimate
  let move ← issueMoved p
  pure (fees ++ movedRow balMap false move)

/-- The escrow of a new dispenser or of a refill; closing one moves nothing yet. -/
def dispenserMoved : Option (Option (Tick × DecimalText)) :=
  if version p = "1" then some none else moved (upper (p "GIVE_TICK")) (str (p "GIVE_ESCROW")) neg

/-- A refill takes no note of the coin. -/
def simulateDispenser : Option (List Delta) := do
  let fees ← pushFeeRow [] balMap coinTick feeEstimate
  let move ← dispenserMoved p
  pure (fees ++ movedRow balMap (version p ≠ "2" ∧ upper (p "GIVE_TICK") = coinTick) move)

/-- Every other action: `DIVIDEND`, `BROADCAST`, `AIRDROP`, `LIST` and those that are not simulated. -/
def feeOnly : Option (List Delta) := pushFeeRow [] balMap coinTick feeEstimate

/-- Every action but a batch. -/
def simulateSingle (action : String) : Option (List Delta) :=
  if action = "SEND" then simulateSend p balMap coinTick feeEstimate
  else if action = "SWEEP" then simulateSweep p balMap coinTick feeEstimate
  else if action = "MINT" then simulateMint p balMap coinTick feeEstimate
  else if action = "DESTROY" then simulateDestroy p balMap coinTick feeEstimate
  else if action = "ISSUE" then simulateIssue p balMap coinTick feeEstimate
  else if action = "DISPENSER" then simulateDispenser p balMap coinTick feeEstimate
  else feeOnly balMap coinTick feeEstimate

/-! ### Protocol fees and unknown balances -/

/-- Put a row behind the first one that `p` holds of, or at the end. -/
def insertAfter (p : Delta → Bool) (row : Delta) : List Delta → List Delta
  | [] => [row]
  | d :: deltas => if p d then d :: row :: deltas else d :: insertAfter p row deltas

/-- The label row of a protocol fee. -/
def protocolFeeRow (tick : Tick) (isCoin : Bool) (amount : String) : Delta :=
  { tick, before := none, after := none, isCoin, isFee := true, isProtocolFee := true
    feeLabel := "Protocol fee", feeAmount := amount }

/-- The row that has the ticker's balance after: the action's own, else the miner fee's. -/
def isCarrier (deltas : List Delta) (tick : Tick) (d : Delta) : Bool :=
  if deltas.any fun d => d.tick = tick ∧ ¬d.isFee then d.tick = tick ∧ ¬d.isFee
  else d.tick = tick ∧ d.isFee ∧ d.before ≠ none

/-- The debit of a protocol fee, on the row that has the balance after or on its own. -/
def foldProtocolFee (deltas : List Delta) (balMap : Balances) (tick : Tick) (isCoin : Bool)
    (amount : String) : Option (List Delta) :=
  match deltas.find? (isCarrier deltas tick) with
  | some carrier =>
    if carrier.afterUnknown then
      some (insertAfter (fun d => d.isFee ∧ ¬d.isProtocolFee) (protocolFeeRow tick isCoin amount) deltas)
    else (neg amount).map fun debit =>
      insertAfter (fun d => d.isFee ∧ ¬d.isProtocolFee) (protocolFeeRow tick isCoin amount)
        (editFirst (isCarrier deltas tick) (Delta.debit debit) deltas)
  | none => (neg amount).map fun debit =>
    insertAfter (fun d => d.isFee ∧ ¬d.isProtocolFee)
      { protocolFeeRow tick isCoin amount with
        before := balMap.before tick, after := addStr (balMap.before tick) debit } deltas

def applyProtocolFee (deltas : List Delta) (balMap : Balances) (coinTick : Option Tick) :
    Option ProtocolFee → Option (List Delta)
  | none => some deltas
  | some fee =>
    if str fee.amount = "" ∨ ¬(numberOf (str fee.amount)).isPositive then some deltas
    else match (upper fee.tick).or coinTick with
      | none => some deltas
      | some tick => foldProtocolFee deltas balMap tick (some tick = coinTick) (str fee.amount)

/-- The ticker of a balance that could not be read. -/
def unknownTick (coinTick : Option Tick) (b : BalanceLookup) : Option Tick :=
  (Tick.ofText b.tick).or (if b.isCoin then coinTick else none)

def addUnknown (coinTick : Option Tick) (unknown : Keyed.Table (Prod.fst : Tick × Bool → Tick))
    (b : BalanceLookup) : Keyed.Table (Prod.fst : Tick × Bool → Tick) :=
  match unknownTick coinTick b with
  | some tick => unknown.put (tick, b.isCoin)
  | none => unknown

/-- The tickers that could not be read, and whether they are the coin's. -/
def unknownTicks (balances : List BalanceLookup) (coinTick : Option Tick) :
    Keyed.Table (Prod.fst : Tick × Bool → Tick) :=
  (balances.filter BalanceLookup.unknown).foldl (addUnknown coinTick) .empty

def Delta.blank (tick : Tick) (d : Delta) : Delta :=
  if d.tick ≠ tick then d
  else if ¬d.isFee then { d with before := none, after := none, afterUnknown := true, beforeUnknown := true }
  else if d.before ≠ none ∨ d.after ≠ none then { d with before := none, after := none, afterUnknown := false }
  else d

/-- A row that shows a balance of the ticker. -/
def touches (tick : Tick) (d : Delta) : Bool :=
  d.tick = tick ∧ (¬d.isFee ∨ d.before ≠ none ∨ d.after ≠ none)

/-- Blank a balance on every row, with a row of its own where there is only a fee's. -/
def blankUnknownBalance (deltas : List Delta) (unknown : Tick × Bool) : List Delta :=
  if ¬deltas.any (touches unknown.1) then deltas
  else if deltas.any fun d => d.tick = unknown.1 ∧ ¬d.isFee then deltas.map (Delta.blank unknown.1)
  else
    (deltas.map (Delta.blank unknown.1)).takeWhile (·.tick ≠ unknown.1) ++
      { tick := unknown.1, before := none, after := none, isCoin := unknown.2, isFee := false
        afterUnknown := true, beforeUnknown := true } ::
      (deltas.map (Delta.blank unknown.1)).dropWhile (·.tick ≠ unknown.1)

def blankUnknownBalances (deltas : List Delta) (balances : List BalanceLookup) (coinTick : Option Tick) :
    List Delta :=
  (unknownTicks balances coinTick).records.foldl blankUnknownBalance deltas

/-- `simulateActionData` around the projection of one action. -/
def simulateActionData (simulateBody : Balances → Option Tick → Option (List Delta))
    (balances : List BalanceLookup) (protocolFee : Option ProtocolFee) (chain : Option String) :
    Option (List Delta) := do
  let coinTick := coinTickOf chain balances
  let balMap := indexBalances balances coinTick
  let deltas ← simulateBody balMap coinTick
  let deltas ← applyProtocolFee deltas balMap coinTick protocolFee
  pure (blankUnknownBalances deltas balances coinTick)

/-! ### Batches -/

/-- A command of a batch: malformed, or an action with its parameters. -/
inductive Command
  | malformed
  | of (action : String) (p : Fields)

/-- `action.trim() === ''`. -/
def isBlank (action : String) : Bool := jsTrim action.toList = []

/-- The rows of a command on the snapshot, none where it is malformed. -/
def simulateCommand (chain : Option String) (balMap : Balances) : Command → List Delta
  | .malformed => []
  | .of action p =>
    if isBlank action ∨ action = "BATCH" then []
    else (simulateActionData (fun balMap coinTick =>
      simulateSingle p balMap coinTick (.amount "0") action) (balancesFromMap balMap) none chain).getD []

/-- The rows of a batch so far, one for each ticker. -/
abbrev AggDeltas := Keyed.Table Delta.tick

/-- Add a row to the ticker's row so far: its change where there is one, else the row itself. -/
def addRow (cur : Option Delta) (d : Delta) (before : DecimalText) : Delta :=
  { tick := d.tick
    before := cur.elim d.before Delta.before
    after := cur.elim d.after fun cur =>
      some (addStr (cur.after.getD zero) (subStr (d.after.getD zero) before))
    isCoin := d.isCoin
    isFee := false }

/-- Fold one row in; the empty text is no amount to subtract. -/
def aggregate (aggDeltas : AggDeltas) (d : Delta) : Option AggDeltas :=
  if d.isFee then some aggDeltas
  else d.before.map fun before => aggDeltas.put (addRow (aggDeltas.get d.tick) d before)

def simulateBatch (commands : List Command) (balMap : Balances) (coinTick : Option Tick)
    (feeEstimate : FeeEstimate) (chain : Option String) : Option (List Delta) :=
  if commands = [] then pushFeeRow [] balMap coinTick feeEstimate
  else do
    let aggDeltas ← (commands.flatMap (simulateCommand chain balMap)).foldlM aggregate .empty
    pushFeeRow (aggDeltas.records.filter fun d => d.before ≠ d.after) balMap coinTick feeEstimate

/-- An action: a batch by its commands, any other by its parameters. -/
structure Action where
  action : String
  p : Fields
  commands : List Command

def simulateBody (a : Action) (feeEstimate : FeeEstimate) (chain : Option String) (balMap : Balances)
    (coinTick : Option Tick) : Option (List Delta) :=
  if a.action = "BATCH" then simulateBatch a.commands balMap coinTick feeEstimate chain
  else simulateSingle a.p balMap coinTick feeEstimate a.action

/-- The rows of an action, none where the data is malformed. -/
def simulateAction (a : Action) (balances : List BalanceLookup) (feeEstimate : FeeEstimate)
    (protocolFee : Option ProtocolFee) (chain : Option String) : List Delta :=
  if isBlank a.action then []
  else (simulateActionData (simulateBody a feeEstimate chain) balances protocolFee chain).getD []

end XchainWallet.TxSimulator
