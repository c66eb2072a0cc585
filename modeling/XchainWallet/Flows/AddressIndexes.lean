import Mathlib.Data.Int.Basic
import Mathlib.Data.List.Nodup
import XchainWallet.Transition.Run

/-!
# Receive and change addresses

`receiveAddress` derives and stores the next external address of an account, `deriveChangeAddress`
the next internal one. Each reads the stored addresses, picks an index that none of them holds, asks
the signer for the address at that index, and stores it. The calls of `receiveAddress` on one vault
take turns; those of `deriveChangeAddress` do not.

A wallet has one index space for each address type. In the legacy format its types share one, since
there the type is only another encoding of the same key.

`IndexWorld` holds the stored addresses and the calls under way. An action carries what the vault, the
explorer and the signer answer; a signer answers with the path that it is asked for.
-/

namespace XchainWallet

/-! ### Data -/

inductive AddressOrigin
  | hd
  | trezor
  | ledger
  | importedWif
  | watchOnly
deriving DecidableEq

/-- `HD_SOURCES`. -/
def AddressOrigin.isHd (source : AddressOrigin) : Bool :=
  source ∈ [AddressOrigin.hd, .trezor, .ledger]

/-- The branch and the index that a derivation path ends on. -/
structure PathEnd where
  branch : ℕ
  index : ℕ
deriving DecidableEq

/-- A stored address. `pathEnd` is what `branchOf` reads of its derivation path. -/
structure VaultAddress where
  accountId : String
  chain : String
  network : String
  source : AddressOrigin
  addressType : String
  pathEnd : Option PathEnd
  address : String
  label : String
deriving DecidableEq

structure IndexAccount where
  id : String
  walletId : String
  index : ℕ

inductive WalletFormat
  | bip39
  | counterwalletLegacy
  | wifOnly
deriving DecidableEq

structure AddressChain where
  coin : String
  networkKind : String
  ticker : String
  addressTypes : List String
  defaultAddressType : String

/-- What the calls read and do not change: the accounts, each with its own id, the wallets by their
ids, and the chains. -/
structure IndexSetup where
  accounts : List IndexAccount
  distinct : (accounts.map IndexAccount.id).Nodup
  format : String → Option WalletFormat
  isDemo : String → Bool
  chain : String → Option AddressChain

/-- `MAX_DERIVATION_INDEX`. -/
def MAX_DERIVATION_INDEX : ℕ := 0x7fffffff

/-- `CHANGE_BRANCH`. -/
def CHANGE_BRANCH : ℕ := 1

/-- `COUNTERWALLET_DEFAULT_ADDRESS_TYPE`. -/
def COUNTERWALLET_DEFAULT_ADDRESS_TYPE : String := "p2pkh"

inductive HdSignerKind
  | software
  | trezor
  | ledger
deriving DecidableEq

/-- `signerKind === 'software' ? 'hd' : signerKind`. -/
def HdSignerKind.source : HdSignerKind → AddressOrigin
  | software => .hd
  | trezor => .trezor
  | ledger => .ledger

/-- An address as a signer derives it. -/
structure DerivedAddress where
  address : String
  pathEnd : PathEnd

/-! ### Index spaces -/

/-- Where an index is looked for: an account, a coin, a network and an address type. -/
structure IndexSpace where
  accountId : String
  coin : String
  network : String
  addressType : String
deriving DecidableEq

def VaultAddress.space (a : VaultAddress) : IndexSpace :=
  ⟨a.accountId, a.chain, a.network, a.addressType⟩

/-- `indexSpaceSharedForWallet(walletId)`. -/
def IndexSetup.shared (setup : IndexSetup) (walletId : String) : Bool :=
  setup.format walletId = some .counterwalletLegacy

/-- The account of an id. -/
def IndexSetup.account (setup : IndexSetup) (accountId : String) : Option IndexAccount :=
  setup.accounts.find? (·.id = accountId)

/-- The types of the account's wallet share one index space. -/
def IndexSetup.sharesTypes (setup : IndexSetup) (accountId : String) : Bool :=
  (setup.account accountId).any fun account => setup.shared account.walletId

/-- Two spaces in which an index stands for one key. -/
def IndexSetup.SameSpace (setup : IndexSetup) (s t : IndexSpace) : Prop :=
  s.accountId = t.accountId ∧ s.coin = t.coin ∧ s.network = t.network ∧
    (setup.sharesTypes s.accountId ∨ s.addressType = t.addressType)

instance (setup : IndexSetup) (s t : IndexSpace) : Decidable (setup.SameSpace s t) :=
  inferInstanceAs (Decidable (_ ∧ _))

/-- The stored addresses that hold an index of the space, as both flows filter them. -/
def inSpace (space : IndexSpace) (sharedIndexSpace : Bool) (a : VaultAddress) : Bool :=
  a.accountId = space.accountId ∧ a.chain = space.coin ∧ a.network = space.network ∧
    (sharedIndexSpace ∨ a.addressType = space.addressType) ∧ a.source.isHd

/-- The indices that are held on a branch. -/
def heldOn (branch : ℕ) (space : IndexSpace) (sharedIndexSpace : Bool)
    (addresses : List VaultAddress) : List ℕ :=
  (addresses.filter (inSpace space sharedIndexSpace)).filterMap fun a =>
    a.pathEnd.bind fun e => if e.branch = branch then some e.index else none

/-! ### Receive addresses -/

structure ReceiveOpts where
  walletId : String
  chainId : String
  accountId : Option String
  accountIndex : ℕ
  addressType : Option String
  derivationIndex : Option ℕ
  label : Option String

/-- What a call has settled before it reads the addresses. -/
structure ReceivePlan where
  space : IndexSpace
  ticker : String
  sharedIndexSpace : Bool
  probeFunding : Bool
  derivationIndex : Option ℕ
  label : Option String

/-- `defaultAddressTypeForWallet`. -/
def IndexSetup.defaultAddressType (setup : IndexSetup) (walletId : String) (chain : AddressChain) :
    String :=
  if setup.format walletId = some .counterwalletLegacy then COUNTERWALLET_DEFAULT_ADDRESS_TYPE
  else chain.defaultAddressType

/-- The account that a call names, by its id or by its index in the wallet. -/
def IndexSetup.receiveAccount (setup : IndexSetup) (opts : ReceiveOpts) : Option IndexAccount :=
  let accounts := setup.accounts.filter (·.walletId = opts.walletId)
  match opts.accountId.filter (· ≠ "") with
  | some accountId => accounts.find? (·.id = accountId)
  | none => accounts.find? (·.index = opts.accountIndex)

/-- The checks of a call, up to the reading of the addresses. `none` is a rejection. -/
def IndexSetup.receivePlan (setup : IndexSetup) (opts : ReceiveOpts) : Option ReceivePlan :=
  (setup.chain opts.chainId).bind fun chain =>
    let type := opts.addressType.getD (setup.defaultAddressType opts.walletId chain)
    if type ∉ chain.addressTypes ∨ setup.format opts.walletId = some .wifOnly ∨
        opts.derivationIndex.any (MAX_DERIVATION_INDEX < ·) then none
    else (setup.receiveAccount opts).map fun account => {
      space := ⟨account.id, chain.coin, chain.networkKind, type⟩
      ticker := chain.ticker
      sharedIndexSpace := setup.shared opts.walletId
      probeFunding := !setup.isDemo opts.walletId
      derivationIndex := opts.derivationIndex
      label := opts.label }

/-- The highest of the held indices, and `-1` where there is none. -/
def highestOf (held : List ℕ) : ℤ := held.foldl (fun (highest : ℤ) (index : ℕ) => max highest index) (-1)

/-- The first index that is not held and not funded. Where the funding is unknown, it is the first
one beyond all that are held, and none at all in a shared index space. -/
def pickIndex (held : List ℕ) (sharedIndexSpace : Bool) (funding : ℕ → Option Bool) :
    ℕ → ℕ → Option ℕ
  | 0, _ => none
  | fuel + 1, index =>
    if index ∈ held then pickIndex held sharedIndexSpace funding fuel (index + 1)
    else
      match funding index with
      | some false => some index
      | some true => pickIndex held sharedIndexSpace funding fuel (index + 1)
      | none =>
        if sharedIndexSpace then none
        else if highestOf held < index then some index
        else pickIndex held sharedIndexSpace funding fuel (index + 1)

/-- The index of the new address: the requested one, or the first that may be given out. -/
def ReceivePlan.target (plan : ReceivePlan) (held : List ℕ) (funding : ℕ → Option Bool) :
    Option ℕ :=
  match plan.derivationIndex with
  | some index => some index
  | none => pickIndex held plan.sharedIndexSpace
      (fun index => if plan.probeFunding then funding index else none) (MAX_DERIVATION_INDEX + 1) 0

/-- The record of a receive address. -/
def ReceivePlan.record (plan : ReceivePlan) (kind : HdSignerKind) (index : ℕ)
    (derived : DerivedAddress) : VaultAddress where
  accountId := plan.space.accountId
  chain := plan.space.coin
  network := plan.space.network
  source := kind.source
  addressType := plan.space.addressType
  pathEnd := some derived.pathEnd
  address := derived.address
  label := plan.label.getD (plan.ticker ++ " Address #" ++ toString (index + 1))

/-! ### Change addresses -/

structure ChangeOpts where
  walletId : String
  chainId : String
  sourceAddress : String

structure ChangePlan where
  space : IndexSpace
  ticker : String
  sourceAddress : String
  nextIndex : ℕ
  changeCount : ℕ

/-- `nextChangeIndex(addresses, scope)`: the next index, and how many are held. -/
def nextChangeIndex (addresses : List VaultAddress) (space : IndexSpace)
    (sharedIndexSpace : Bool) : ℕ × ℕ :=
  let held := heldOn CHANGE_BRANCH space sharedIndexSpace addresses
  ((highestOf held + 1).toNat, held.length)

/-- `findSourceRecord(addresses, scope)`. -/
def findSourceRecord (addresses : List VaultAddress) (address coin network : String) :
    Option VaultAddress :=
  addresses.find? fun a => a.address = address ∧ a.chain = coin ∧ a.network = network

/-- The space in which a rotation looks for an index, with the chain's ticker: that of the address
which it spends from. -/
def IndexSetup.changeSpace (setup : IndexSetup) (opts : ChangeOpts)
    (addresses : List VaultAddress) : Option (IndexSpace × String) :=
  (setup.chain opts.chainId).bind fun chain =>
    (findSourceRecord addresses opts.sourceAddress chain.coin chain.networkKind).bind fun source =>
      (setup.account source.accountId).bind fun account =>
        if opts.sourceAddress = "" ∨ ¬source.source.isHd ∨ account.walletId ≠ opts.walletId ∨
            source.addressType ∉ chain.addressTypes then none
        else some (⟨account.id, chain.coin, chain.networkKind, source.addressType⟩, chain.ticker)

/-- What a rotation takes from the addresses that it has read. `none` is a rotation that ends
without an address. -/
def IndexSetup.changePlan (setup : IndexSetup) (opts : ChangeOpts)
    (addresses : List VaultAddress) : Option ChangePlan :=
  (setup.changeSpace opts addresses).map fun (space, ticker) =>
    let next := nextChangeIndex addresses space (setup.shared opts.walletId)
    ⟨space, ticker, opts.sourceAddress, next.1, next.2⟩

/-- The record of a change address, where the derivation is on the internal branch. -/
def ChangePlan.record (plan : ChangePlan) (kind : HdSignerKind) (derived : DerivedAddress) :
    Option VaultAddress :=
  if derived.pathEnd.branch ≠ CHANGE_BRANCH ∨ derived.address = plan.sourceAddress then none
  else some {
    accountId := plan.space.accountId
    chain := plan.space.coin
    network := plan.space.network
    source := kind.source
    addressType := plan.space.addressType
    pathEnd := some derived.pathEnd
    address := derived.address
    label := plan.ticker ++ " Change #" ++ toString (plan.changeCount + 1) }

/-! ### The world -/

/-- Where the `receiveAddress` call stands whose turn it is: before it reads the addresses, before it
has an address, and before that is stored. -/
inductive ReceivePc
  | started (opts : ReceiveOpts)
  | listed (plan : ReceivePlan) (held : List ℕ)
  | storing (record : VaultAddress)

/-- Where a rotation stands. -/
inductive ChangePc
  | started (opts : ChangeOpts)
  | listed (plan : ChangePlan)
  | storing (record : VaultAddress)

structure IndexWorld where
  stored : List VaultAddress
  queue : List ReceiveOpts
  turn : Option ReceivePc
  changes : ℕ → Option ChangePc

/-- What can happen. `i` is the number of a rotation. A failure is any rejection on the way: a read
or a write of the vault, an unlock, a device. -/
inductive IndexAct
  | receive (opts : ReceiveOpts)
  | takeTurn
  | receiveList
  | receiveDerive (kind : HdSignerKind) (funding : ℕ → Option Bool) (derived : DerivedAddress)
  | receivePut
  | receiveFail
  | change (i : ℕ) (opts : ChangeOpts)
  | changeList (i : ℕ)
  | changeDerive (i : ℕ) (kind : HdSignerKind) (derived : DerivedAddress)
  | changePut (i : ℕ)
  | changeFail (i : ℕ)

namespace IndexWorld

/-- The rotation goes on, or ends. -/
def setChange (w : IndexWorld) (i : ℕ) (pc : Option ChangePc) : IndexWorld :=
  { w with changes := Function.update w.changes i pc }

theorem changes_setChange_self (w : IndexWorld) (i : ℕ) (pc : Option ChangePc) :
    (w.setChange i pc).changes i = pc := Function.update_self ..

theorem changes_setChange_of_ne (w : IndexWorld) {i j : ℕ} (pc : Option ChangePc) (h : j ≠ i) :
    (w.setChange i pc).changes j = w.changes j := Function.update_of_ne h ..

/-- The read of the addresses in a `receiveAddress` call. A requested index that is held rejects. -/
def afterList (setup : IndexSetup) (stored : List VaultAddress) (opts : ReceiveOpts) :
    Option ReceivePc :=
  (setup.receivePlan opts).bind fun plan =>
    let held := heldOn 0 plan.space plan.sharedIndexSpace stored
    if plan.derivationIndex.any (· ∈ held) then none else some (.listed plan held)

def step (setup : IndexSetup) (w : IndexWorld) : IndexAct → Option IndexWorld
  | .receive opts => some { w with queue := w.queue ++ [opts] }
  | .takeTurn =>
    match w.turn, w.queue with
    | none, opts :: queue => some { w with turn := some (.started opts), queue }
    | _, _ => none
  | .receiveList =>
    match w.turn with
    | some (.started opts) => some { w with turn := afterList setup w.stored opts }
    | _ => none
  | .receiveDerive kind funding derived =>
    match w.turn with
    | some (.listed plan held) =>
      match plan.target held funding with
      | none => some { w with turn := none }
      | some index =>
        if derived.pathEnd = ⟨0, index⟩ then
          some { w with turn := some (.storing (plan.record kind index derived)) }
        else none
    | _ => none
  | .receivePut =>
    match w.turn with
    | some (.storing record) => some { w with stored := w.stored ++ [record], turn := none }
    | _ => none
  | .receiveFail =>
    match w.turn with
    | some _ => some { w with turn := none }
    | none => none
  | .change i opts =>
    match w.changes i with
    | none => some (w.setChange i (some (.started opts)))
    | some _ => none
  | .changeList i =>
    match w.changes i with
    | some (.started opts) =>
      some (w.setChange i ((setup.changePlan opts w.stored).map .listed))
    | _ => none
  | .changeDerive i kind derived =>
    match w.changes i with
    | some (.listed plan) =>
      if derived.pathEnd = ⟨CHANGE_BRANCH, plan.nextIndex⟩ then
        some (w.setChange i ((plan.record kind derived).map .storing))
      else none
    | _ => none
  | .changePut i =>
    match w.changes i with
    | some (.storing record) =>
      some ({ w with stored := w.stored ++ [record] }.setChange i none)
    | _ => none
  | .changeFail i =>
    match w.changes i with
    | some _ => some (w.setChange i none)
    | none => none

/-- A vault with these addresses and no call under way. -/
def start (stored : List VaultAddress) : IndexWorld := ⟨stored, [], none, fun _ => none⟩

end IndexWorld

end XchainWallet
