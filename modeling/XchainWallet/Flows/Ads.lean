import Mathlib.Algebra.BigOperators.Group.List.Basic
import Mathlib.Algebra.GroupWithZero.Nat
import XchainWallet.Transition.Run

/-!
# The donation accumulator

Each transaction adds `perTxAmountSats` to a per-chain accumulator. A transaction composed while the
accumulator is at its trigger carries the accumulated amount as an output, and the step that is booked
after its broadcast resets the accumulator and counts the donation. A chain descriptor is read here for
its defaults and its donation addresses, the settings record for its `ads` part.
-/

namespace XchainWallet

open Function

/-! ### Descriptors and settings -/

def ADS_DONATION_ADDRESS_ROLES : List String := ["DONATE1", "DONATE2", "EXPLORER"]

def ADS_DEFAULT_DONATION_ADDRESS_ROLE : String := "DONATE1"

def ADS_DONATION_ADDRESS_PLACEHOLDER : String := "PLACEHOLDER_REPLACE_BEFORE_MAINNET"

def ADS_DEFAULT_PER_TX_SATS : ℕ := 1000

def ADS_DEFAULT_TRIGGER_SATS : ℕ := 25000

structure AdsAmounts where
  perTxAmountSats : ℕ
  triggerAmountSats : ℕ

/-- `adsDonationAddresses` maps a role to its address, where the descriptor has the map at all. -/
structure AdsDescriptor where
  adsDefaults : Option AdsAmounts
  adsDonationAddresses : Option (String → Option String)
  adsDonationAddress : Option String

structure AdsChainState where
  perTxAmountSats : Option ℕ
  triggerAmountSats : Option ℕ
  donationAddressRole : Option String
  accumulatedSats : ℕ
  lifetimeDonatedSats : ℕ
  lifetimeTxCount : ℕ

def createDefaultAdsChainState : AdsChainState := ⟨none, none, none, 0, 0, 0⟩

structure AdsSettings where
  enabled : Bool
  perChain : String → Option AdsChainState

abbrev AdsRegistry := String → Option AdsDescriptor

/-- A stored amount wins, then the descriptor's default, then the constant. -/
def resolveAdsChainConfig (state : AdsChainState) (descriptor : Option AdsDescriptor) :
    AdsAmounts where
  perTxAmountSats := state.perTxAmountSats.getD
    ((descriptor.bind (·.adsDefaults)).elim ADS_DEFAULT_PER_TX_SATS (·.perTxAmountSats))
  triggerAmountSats := state.triggerAmountSats.getD
    ((descriptor.bind (·.adsDefaults)).elim ADS_DEFAULT_TRIGGER_SATS (·.triggerAmountSats))

def donationAddressForDescriptor (descriptor : AdsDescriptor) (role : String) : Option String :=
  match descriptor.adsDonationAddresses with
  | some addresses => addresses role
  | none =>
    if role = ADS_DEFAULT_DONATION_ADDRESS_ROLE then descriptor.adsDonationAddress else none

def isDonationAddressConfigured (descriptor : AdsDescriptor) (role : String) : Bool :=
  match donationAddressForDescriptor descriptor role with
  | some address => address ≠ ADS_DONATION_ADDRESS_PLACEHOLDER
  | none => false

def resolveAdsDonationAddressRole (state : AdsChainState) : Option String :=
  let selected := state.donationAddressRole.getD ADS_DEFAULT_DONATION_ADDRESS_ROLE
  if selected ∈ ADS_DONATION_ADDRESS_ROLES then some selected else none

/-! ### The plan of the next transaction -/

inductive AdsPlanReason where
  | ok
  | adsDisabled
  | chainNotSeeded
  | triggerNotReached
  | addressNotConfigured
  | unknownChain
  deriving DecidableEq

structure AdsPlan where
  donationAmount : ℕ
  donationAddress : Option String
  canSubmit : Bool
  reason : AdsPlanReason

def AdsPlan.refuse (reason : AdsPlanReason) : AdsPlan := ⟨0, none, false, reason⟩

def resolveAdsPlanForNextTx (settings : Option AdsSettings) (chainId : String)
    (chainRegistry : AdsRegistry) : AdsPlan :=
  match chainRegistry chainId with
  | none => .refuse .unknownChain
  | some descriptor =>
    match settings with
    | none => .refuse .adsDisabled
    | some settings =>
      if !settings.enabled then .refuse .adsDisabled
      else
        match settings.perChain chainId with
        | none => .refuse .chainNotSeeded
        | some state =>
          if state.accumulatedSats < (resolveAdsChainConfig state descriptor).triggerAmountSats then
            .refuse .triggerNotReached
          else
            match resolveAdsDonationAddressRole state with
            | none => ⟨state.accumulatedSats, none, false, .addressNotConfigured⟩
            | some role =>
              if !isDonationAddressConfigured descriptor role then
                ⟨state.accumulatedSats, none, false, .addressNotConfigured⟩
              else
                ⟨state.accumulatedSats, donationAddressForDescriptor descriptor role, true, .ok⟩

structure CustomOutput where
  address : Option String
  value : ℕ

/-- What `applyAdsPlanToEncoderOpts` returns, of the encoder options their `customOutputs`. -/
structure AppliedAdsPlan where
  customOutputs : List CustomOutput
  adsPlan : AdsPlan
  adsEnabledForChain : Bool

/-- The chain's state, where the system is on. -/
def adsStateOn (settings : Option AdsSettings) (chainId : String) : Option AdsChainState :=
  settings.bind fun settings => if settings.enabled then settings.perChain chainId else none

def applyAdsPlanToEncoderOpts (settings : Option AdsSettings) (chainId : String)
    (chainRegistry : AdsRegistry) (customOutputs : List CustomOutput) : AppliedAdsPlan :=
  let adsPlan := resolveAdsPlanForNextTx settings chainId chainRegistry
  { customOutputs :=
      if adsPlan.canSubmit then customOutputs ++ [⟨adsPlan.donationAddress, adsPlan.donationAmount⟩]
      else customOutputs,
    adsPlan := adsPlan,
    adsEnabledForChain := (adsStateOn settings chainId).isSome }

/-- What is recorded as accumulated on a chain. -/
def accumulatedSats (settings : Option AdsSettings) (chainId : String) : ℕ :=
  (settings.bind (·.perChain chainId)).elim 0 (·.accumulatedSats)

/-- What is recorded as donated on a chain. -/
def donatedSats (settings : Option AdsSettings) (chainId : String) : ℕ :=
  (settings.bind (·.perChain chainId)).elim 0 (·.lifetimeDonatedSats)

/-! ### Booking a transaction -/

/-- The chain's state after one transaction. -/
def AdsChainState.next (state : AdsChainState) (perTxAmountSats : ℕ) (donationIncluded : Bool) :
    AdsChainState :=
  if donationIncluded then
    { state with
      lifetimeTxCount := state.lifetimeTxCount + 1,
      lifetimeDonatedSats := state.lifetimeDonatedSats + state.accumulatedSats,
      accumulatedSats := perTxAmountSats }
  else
    { state with
      lifetimeTxCount := state.lifetimeTxCount + 1,
      accumulatedSats := state.accumulatedSats + perTxAmountSats }

def stepAdsAccumulator (settings : AdsSettings) (chainId : String) (donationIncluded : Bool)
    (chainRegistry : AdsRegistry) : AdsSettings :=
  if !settings.enabled then settings
  else
    match settings.perChain chainId with
    | none => settings
    | some state =>
      let config := resolveAdsChainConfig state (chainRegistry chainId)
      { settings with
        perChain := update settings.perChain chainId
          (some (state.next config.perTxAmountSats donationIncluded)) }

/-- `commitAdsStepNow`: the serialized read, step and write of the record, `none` where there is no
record. `writes` is false where the vault refuses the write or the host stops before it. -/
def commitAdsStepNow (settings : Option AdsSettings) (chainId : String) (donationIncluded : Bool)
    (chainRegistry : AdsRegistry) (writes : Bool) : Option AdsSettings :=
  if writes then
    settings.map fun settings => stepAdsAccumulator settings chainId donationIncluded chainRegistry
  else settings

/-! ### Transactions over one vault -/

/-- What the user changes in the settings; the counters are not among it. -/
inductive AdsEdit where
  | create (enabled : Bool) (chains : List String)
  | setEnabled (enabled : Bool)
  | seedChain (chainId : String)
  | setAmounts (chainId : String) (perTxAmountSats triggerAmountSats : Option ℕ)
  | setRole (chainId : String) (role : Option String)

def AdsEdit.apply (settings : Option AdsSettings) : AdsEdit → Option AdsSettings
  | .create enabled chains => some (settings.getD
      ⟨enabled, fun chainId => if chainId ∈ chains then some createDefaultAdsChainState else none⟩)
  | .setEnabled enabled => settings.map fun s => { s with enabled := enabled }
  | .seedChain chainId => settings.map fun s => { s with
      perChain := update s.perChain chainId
        (some ((s.perChain chainId).getD createDefaultAdsChainState)) }
  | .setAmounts chainId perTx trigger => settings.map fun s => { s with
      perChain := update s.perChain chainId ((s.perChain chainId).map fun state =>
        { state with perTxAmountSats := perTx, triggerAmountSats := trigger }) }
  | .setRole chainId role => settings.map fun s => { s with
      perChain := update s.perChain chainId ((s.perChain chainId).map fun state =>
        { state with donationAddressRole := role }) }

/-- A transaction on its way: the donation outputs in its bytes, the verdict that its envelope
carries, and what `submitAction` resolved for the booking. -/
structure AdsTx where
  chainId : String
  donations : List CustomOutput
  verdict : Option Bool
  submitted : Option (Bool × Bool)
  landed : Bool

def AdsTx.donation (tx : AdsTx) : ℕ := (tx.donations.map CustomOutput.value).sum

/-- A transaction that was broadcast and whose booking has run, with the per-transaction amount that
the settings set for it then. -/
structure SettledTx where
  chainId : String
  donation : ℕ
  perTxAmountSats : ℕ

structure AdsWorld where
  chainRegistry : AdsRegistry
  settings : Option AdsSettings
  txs : List AdsTx
  settled : List SettledTx

/-- What happens next: the user edits the settings, a transaction is composed for the confirm page,
submitted from its envelope or composed and submitted at once, lands on the network, or is booked. -/
inductive AdsAct where
  | edit (edit : AdsEdit)
  | compose (chainId : String) (customOutputs : List CustomOutput) (carriesVerdict : Bool)
  | submit (i : ℕ)
  | submitNow (chainId : String) (customOutputs : List CustomOutput)
  | land (i : ℕ)
  | settle (i : ℕ) (writes : Bool)

namespace AdsWorld

variable (w : AdsWorld)

def fresh (chainRegistry : AdsRegistry) : AdsWorld := ⟨chainRegistry, none, [], []⟩

/-- A transaction composed from the settings as they are. -/
def composed (chainId : String) (customOutputs : List CustomOutput) : AdsTx × AppliedAdsPlan :=
  let applied := applyAdsPlanToEncoderOpts w.settings chainId w.chainRegistry customOutputs
  (⟨chainId, applied.customOutputs.drop customOutputs.length, some applied.adsPlan.canSubmit, none,
    false⟩, applied)

/-- What `submitAction` resolves for a transaction composed earlier: whether the system is on for its
chain, and whether the booking is one with a donation. -/
def submission (tx : AdsTx) : Bool × Bool :=
  let applied := applyAdsPlanToEncoderOpts w.settings tx.chainId w.chainRegistry []
  (applied.adsEnabledForChain, tx.verdict.getD applied.adsPlan.canSubmit)

/-- The chain's state, where a booking of `tx` changes it. -/
def booked (tx : AdsTx) : Option AdsChainState :=
  match tx.submitted with
  | some (true, _) => adsStateOn w.settings tx.chainId
  | _ => none

/-- The per-transaction amount that the settings set for a transaction booked now. -/
def perTxAmount (tx : AdsTx) : ℕ :=
  (w.booked tx).elim 0 fun state =>
    (resolveAdsChainConfig state (w.chainRegistry tx.chainId)).perTxAmountSats

/-- The world after the booking of a transaction that landed. -/
def settle (i : ℕ) (tx : AdsTx) (writes : Bool) : AdsWorld :=
  { w with
    settings :=
      match tx.submitted with
      | some (true, donationIncluded) =>
        commitAdsStepNow w.settings tx.chainId donationIncluded w.chainRegistry writes
      | _ => w.settings,
    txs := w.txs.eraseIdx i,
    settled := w.settled ++ [⟨tx.chainId, tx.donation, w.perTxAmount tx⟩] }

def step : AdsWorld → AdsAct → Option AdsWorld
  | w, .edit edit => some { w with settings := edit.apply w.settings }
  | w, .compose chainId customOutputs carriesVerdict =>
    let tx := (w.composed chainId customOutputs).1
    some { w with txs := w.txs ++ [if carriesVerdict then tx else { tx with verdict := none }] }
  | w, .submit i => do
    let tx ← w.txs[i]?
    if tx.submitted.isSome then none
    else some { w with txs := w.txs.set i { tx with submitted := some (w.submission tx) } }
  | w, .submitNow chainId customOutputs =>
    let (tx, applied) := w.composed chainId customOutputs
    some { w with txs := w.txs ++ [{ tx with
      submitted := some (applied.adsEnabledForChain, applied.adsPlan.canSubmit) }] }
  | w, .land i => do
    let tx ← w.txs[i]?
    if tx.submitted.isNone then none else some { w with txs := w.txs.set i { tx with landed := true } }
  | w, .settle i writes => do
    let tx ← w.txs[i]?
    if tx.landed then some (w.settle i tx writes) else none

/-- The transactions of a chain that were broadcast and booked. -/
def settledOn (chainId : String) : List SettledTx := w.settled.filter (·.chainId = chainId)

/-- **Conservation.** What is recorded as donated is what was broadcast as donations, and what is
accumulated or donated is what the transactions were to contribute. -/
def Conserved : Prop :=
  ∀ chainId,
    donatedSats w.settings chainId = ((w.settledOn chainId).map SettledTx.donation).sum ∧
    accumulatedSats w.settings chainId + donatedSats w.settings chainId =
      ((w.settledOn chainId).map SettledTx.perTxAmountSats).sum

/-- What the booking of a transaction counts as donated. -/
def counted (tx : AdsTx) (writes : Bool) : ℕ :=
  match w.booked tx, writes with
  | some state, true => if tx.submitted.elim false Prod.snd then state.accumulatedSats else 0
  | _, _ => 0

/-- A booking that is true to the bytes. Where it changes the counters, the vault takes the write
unless there is nothing to add, and as a donation it counts exactly the output that was composed, so
that nothing was booked on the chain since; else there is no donation. -/
def BooksBytes (tx : AdsTx) (writes : Bool) : Prop :=
  tx.donation = w.counted tx writes ∧ (writes = false → w.perTxAmount tx = 0)

def TrueToBytes : AdsAct → Prop
  | .settle i writes => ∀ tx ∈ w.txs[i]?, tx.landed = true → w.BooksBytes tx writes
  | _ => True

instance (w : AdsWorld) (a : AdsAct) : Decidable (w.TrueToBytes a) := by
  cases a with
  | settle i writes =>
    unfold TrueToBytes BooksBytes
    infer_instance
  | _ => exact isTrue trivial

end AdsWorld

end XchainWallet
