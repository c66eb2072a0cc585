import XchainWallet.Checks.Refuse

/-!
# Connected sites and what they may see

The `ConnectedSite` record of an origin and its permissions, in which an empty list of chains or accounts
grants all of them; the wallet state that the bridge reads; and the checks that the handlers make before and
after the user is asked. Every check takes the permissions that it is made against, since a handler makes
some of them against a copy.
-/

namespace XchainWallet.Bridge

open Checks

/-! ### Records -/

inductive ActionPermission where
  | always
  | ask
  | never
  deriving DecidableEq

structure SitePermissions where
  chains : List String
  accounts : List String
  canSignMessage : Bool
  canSignAction : String → Option ActionPermission

structure ConnectedSite where
  id : ℕ
  origin : String
  lastUsedAt : ℕ
  permissions : SitePermissions
  autoApproved : Bool

structure Account where
  id : String
  name : String
  deriving DecidableEq

structure Address where
  id : String
  address : String
  coin : String
  network : String
  accountId : Option String
  derivationPath : Option String
  deriving DecidableEq

/-- `coin` and `networkKind` of a chain. -/
structure Descriptor where
  coin : String
  networkKind : String

structure CoSignerAccount where
  chainId : String
  aggregateAddress : String
  daemonDerivationPath : String
  enabled : Bool
  deriving DecidableEq

/-- What the handlers read besides the sites. -/
structure Wallet where
  accounts : List Account
  addresses : List Address
  coSignerAccounts : List CoSignerAccount
  descriptor : String → Option Descriptor
  chainIdFor : String → String → Option String
  activeNetwork : String

/-! ### What permissions grant -/

namespace SitePermissions

variable (p : SitePermissions)

/-- An empty list is every chain. -/
def HasChain (chainId : String) : Prop := p.chains = [] ∨ chainId ∈ p.chains

/-- An empty list is every account. -/
def HasAccount (id : String) : Prop := p.accounts = [] ∨ id ∈ p.accounts

/-- The account of the address is granted. -/
def HasOwner (a : Address) : Prop := p.accounts = [] ∨ ∃ id ∈ a.accountId, id ∈ p.accounts

instance (chainId : String) : Decidable (p.HasChain chainId) := inferInstanceAs (Decidable (_ ∨ _))

instance (id : String) : Decidable (p.HasAccount id) := inferInstanceAs (Decidable (_ ∨ _))

instance (a : Address) : Decidable (p.HasOwner a) := inferInstanceAs (Decidable (_ ∨ _))

/-- The permission for an action, `ask` where there is none. -/
def action (name : String) : ActionPermission := (p.canSignAction name).getD .ask

end SitePermissions

/-! ### Checks -/

def assertChainPermitted (p : SitePermissions) (chainId : String) : Except String Unit := do
  refuseIf (chainId = "") "MISSING_CHAIN_ID"
  refuseIf (¬p.HasChain chainId) "CHAIN_NOT_PERMITTED"

/-- The address is on the chain of the descriptor. -/
def Address.OnChain (a : Address) (descriptor : Descriptor) : Prop :=
  a.coin = descriptor.coin ∧ a.network = descriptor.networkKind

instance (a : Address) (descriptor : Descriptor) : Decidable (a.OnChain descriptor) :=
  inferInstanceAs (Decidable (_ ∧ _))

def assertChainOnActiveNetwork (wallet : Wallet) (chainId : String) : Except String Unit :=
  match wallet.descriptor chainId with
  | none => .error "CHAIN_NOT_PERMITTED"
  | some d => refuseIf (d.networkKind ≠ wallet.activeNetwork) "CHAIN_NOT_PERMITTED"

def siteHasAddress (wallet : Wallet) (p : SitePermissions) (chainId address : String) : Bool :=
  match wallet.descriptor chainId with
  | none => false
  | some d => wallet.addresses.any fun a => a.address = address ∧ a.OnChain d ∧ p.HasOwner a

/-- The address on the chain belongs to a granted account. -/
def SitePermissions.HasAddress (wallet : Wallet) (p : SitePermissions) (chainId address : String) : Prop :=
  p.accounts = [] ∨ siteHasAddress wallet p chainId address

def assertAddressPermitted (wallet : Wallet) (p : SitePermissions) (chainId address : String) :
    Except String Unit :=
  if p.accounts = [] then .ok ()
  else do
    refuseIf (address = "") "MISSING_ADDRESS"
    refuseIf (siteHasAddress wallet p chainId address = false) "ADDRESS_NOT_PERMITTED"

def findAddressByString (wallet : Wallet) (address chainId : String) : Option Address :=
  match wallet.descriptor chainId with
  | none => none
  | some d => wallet.addresses.find? fun a => a.address = address ∧ a.OnChain d

def findCoSignerAccountByAddress (wallet : Wallet) (chainId aggregateAddress : String) :
    Option CoSignerAccount :=
  wallet.coSignerAccounts.find? fun account =>
    account.aggregateAddress = aggregateAddress ∧ account.chainId = chainId ∧ account.enabled

/-- The address record that the key of the co-signer was made from. -/
def coSignerOwner (wallet : Wallet) (account : CoSignerAccount) : Option Address :=
  match wallet.descriptor account.chainId with
  | none => none
  | some d => wallet.addresses.find? fun a =>
      a.OnChain d ∧ a.derivationPath = some account.daemonDerivationPath

/-- The co-signer account belongs to a granted account. -/
def SitePermissions.HasCoSigner (wallet : Wallet) (p : SitePermissions) (account : CoSignerAccount) : Prop :=
  p.accounts = [] ∨ ∃ owner ∈ coSignerOwner wallet account, ∃ id ∈ owner.accountId, id ∈ p.accounts

instance (wallet : Wallet) (p : SitePermissions) (account : CoSignerAccount) :
    Decidable (p.HasCoSigner wallet account) :=
  inferInstanceAs (Decidable (_ ∨ _))

def assertCoSignerAccountPermitted (wallet : Wallet) (p : SitePermissions) (account : CoSignerAccount) :
    Except String Unit :=
  refuseIf (¬p.HasCoSigner wallet account) "ADDRESS_NOT_PERMITTED"

/-- What an entry of `signingPaths` names. -/
inductive SigningPath where
  | address (address : String)
  | derivationPath (path : String)

/-- The address record that an entry names. -/
def SigningPath.find (wallet : Wallet) (chainId : String) (entry : SigningPath) : Option Address :=
  match wallet.descriptor chainId with
  | none => none
  | some d =>
    match entry with
    | .address text => wallet.addresses.find? fun a => a.OnChain d ∧ a.address = text
    | .derivationPath path => wallet.addresses.find? fun a => a.OnChain d ∧ a.derivationPath = some path

def resolveBridgeSigningPath (wallet : Wallet) (p : SitePermissions) (chainId : String)
    (entry : SigningPath) : Except String Address := do
  let a ← orRefuse (entry.find wallet chainId) "ADDRESS_NOT_FOUND"
  refuseIf (¬p.HasOwner a) "ADDRESS_NOT_PERMITTED"
  return a

def resolveBridgeSigningPaths (wallet : Wallet) (p : SitePermissions) (chainId : String)
    (entries : List SigningPath) : Except String (List Address) :=
  entries.mapM (resolveBridgeSigningPath wallet p chainId)

structure SignInCandidate where
  address : String
  chainId : String
  deriving DecidableEq

/-- The candidate that an address record makes, if the grant and the request let it. -/
def signInCandidate (wallet : Wallet) (p : SitePermissions) (coins : List String) (chainId : String)
    (a : Address) : Option SignInCandidate :=
  if a.address = "" then none
  else
    match wallet.chainIdFor a.coin a.network with
    | none => none
    | some id =>
      if ¬p.HasOwner a ∨ ¬p.HasChain id ∨ (coins ≠ [] ∧ a.coin ∉ coins) ∨ (chainId ≠ "" ∧ id ≠ chainId) then
        none
      else some ⟨a.address, id⟩

def signInCandidates (wallet : Wallet) (p : SitePermissions) (coins : List String) (chainId : String) :
    List SignInCandidate :=
  (wallet.addresses.filterMap (signInCandidate wallet p coins chainId)).dedup

/-! ### Requests and answers -/

/-- What a signing method asks for. A missing string is empty. -/
inductive SignRequest where
  | message (chainId address : String)
  | action (chainId name fromAddress : String)
  | psbt (chainId : String) (signingPaths : List SigningPath)
  | coSign (chainId aggregateAddress : String)
  | signIn (coins : List String) (chainId : String)

/-- What the user answers besides a password. -/
structure Decision where
  savePermanent : Bool
  address : String
  chainId : String

/-- What a handler hands out. -/
inductive Answer where
  | accounts (accounts : List Account)
  | addresses (chainId : String) (addresses : List Address)
  | balances (chainId address : String)
  | signature (chainId address : String)
  | submitted (chainId address : String)
  | signedPsbt (chainId : String) (addresses : List Address)
  | coSigned (account : CoSignerAccount)
  deriving DecidableEq

/-- The answer concerns only chains and accounts of the permissions. -/
def Answer.Within (wallet : Wallet) (p : SitePermissions) : Answer → Prop
  | .accounts records => ∀ a ∈ records, p.HasAccount a.id
  | .addresses chainId records => p.HasChain chainId ∧ ∀ a ∈ records, p.HasOwner a
  | .balances chainId address => p.HasChain chainId ∧ p.HasAddress wallet chainId address
  | .signature chainId address => p.HasChain chainId ∧ p.HasAddress wallet chainId address
  | .submitted chainId address => p.HasChain chainId ∧ p.HasAddress wallet chainId address
  | .signedPsbt chainId records => p.HasChain chainId ∧ ∀ a ∈ records, p.HasOwner a
  | .coSigned account => p.HasChain account.chainId ∧ p.HasCoSigner wallet account

def SUPPORTED_BRIDGE_ACTIONS : List String := ["SEND", "SWEEP"]

/-- What a signing handler checks before it asks the user. -/
def beforePrompt (wallet : Wallet) (p : SitePermissions) : SignRequest → Except String Unit
  | .message chainId address => do
    assertChainPermitted p chainId
    assertAddressPermitted wallet p chainId address
  | .action chainId name fromAddress => do
    assertChainPermitted p chainId
    refuseIf (name ∉ SUPPORTED_BRIDGE_ACTIONS) "UNSUPPORTED_ACTION"
    refuseIf (p.action name = .never) "ACTION_REJECTED_BY_POLICY"
    assertAddressPermitted wallet p chainId fromAddress
  | .psbt chainId signingPaths => do
    assertChainPermitted p chainId
    refuseIf (signingPaths = []) "INVALID_PARAMS"
  | .coSign chainId aggregateAddress => do
    assertChainPermitted p chainId
    let account ← orRefuse (findCoSignerAccountByAddress wallet chainId aggregateAddress)
      "UNKNOWN_COSIGNER_ACCOUNT"
    assertCoSignerAccountPermitted wallet p account
  | .signIn coins chainId => refuseIf (signInCandidates wallet p coins chainId = []) "ADDRESS_NOT_PERMITTED"

/-- The candidate that the user chose. -/
def SignInCandidate.IsChosen (decision : Decision) (c : SignInCandidate) : Prop :=
  c.address = decision.address ∧ (decision.chainId = "" ∨ c.chainId = decision.chainId)

instance (decision : Decision) (c : SignInCandidate) : Decidable (c.IsChosen decision) :=
  inferInstanceAs (Decidable (_ ∧ _))

/-- What a signing handler does after the user approved, and its answer. -/
def afterApproval (wallet : Wallet) (p : SitePermissions) (decision : Decision) :
    SignRequest → Except String Answer
  | .message chainId address => do
    let _ ← orRefuse (findAddressByString wallet address chainId) "ADDRESS_NOT_FOUND"
    return .signature chainId address
  | .action chainId _ fromAddress => do
    let _ ← orRefuse (findAddressByString wallet fromAddress chainId) "ADDRESS_NOT_FOUND"
    return .submitted chainId fromAddress
  | .psbt chainId signingPaths => do
    let addresses ← resolveBridgeSigningPaths wallet p chainId signingPaths
    return .signedPsbt chainId addresses
  | .coSign chainId aggregateAddress => do
    let account ← orRefuse (findCoSignerAccountByAddress wallet chainId aggregateAddress)
      "UNKNOWN_COSIGNER_ACCOUNT"
    return .coSigned account
  | .signIn coins chainId => do
    let chosen ← orRefuse
      ((signInCandidates wallet p coins chainId).find? fun c => c.IsChosen decision) "ADDRESS_NOT_PERMITTED"
    assertChainPermitted p chosen.chainId
    assertAddressPermitted wallet p chosen.chainId decision.address
    let _ ← orRefuse (findAddressByString wallet decision.address chosen.chainId) "ADDRESS_NOT_FOUND"
    return .signature chosen.chainId decision.address

/-- The accounts that `getAccounts` and `connect` hand out. -/
def accountRecordsFrom (wallet : Wallet) (p : SitePermissions) : List Account :=
  wallet.accounts.filter fun a => p.HasAccount a.id

/-- The addresses that `getAddresses` hands out. -/
def addressRecordsFrom (wallet : Wallet) (p : SitePermissions) (d : Descriptor) : List Address :=
  wallet.addresses.filter fun a => a.OnChain d ∧ p.HasOwner a

end XchainWallet.Bridge
