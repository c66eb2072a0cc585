import XchainWallet.Js.Text
import XchainWallet.Keyed.List
import XchainWallet.Transition.Run

/-!
# The signer pool

A `SignerPool` keeps the unlocked signers of a session by wallet. `populate` unlocks the signer
of every wallet, `captureOne` unlocks one to store its passphrase, `unlockOne` unlocks a single
one; each awaits the unlock and, where a passphrase was typed, the reads of the vault that check
it. `evict` and `lockAll` run at once. An operation takes a token when it begins on a wallet; a
token is current until the session is locked or another operation begins on the wallet.

A `PoolWorld` is one pool with the operations that have begun. `unlocked` lists every signer that
was ever unlocked, each with the operation that has unlocked it, and `locked` the ones whose keys
are zeroed.
-/

namespace XchainWallet

/-! ### Wallets -/

/-- Parameters of a key derivation; `salt` is `none` where it is no base64 text. -/
structure KdfParams where
  algorithm : String
  iterations : ℕ
  memory : ℕ
  parallelism : ℕ
  salt : Option (List UInt8)
  deriving DecidableEq

/-- Two parameter records derive the same key from one password. -/
def kdfParamsEqual (a b : KdfParams) : Bool :=
  a.algorithm = b.algorithm ∧ a.iterations = b.iterations ∧ a.memory = b.memory ∧
    a.parallelism = b.parallelism ∧ a.salt = b.salt ∧ a.salt ≠ none ∧ a.salt ≠ some []

/-- The fields of a wallet record that the pool reads. -/
structure PoolWallet where
  id : String
  name : String
  passphraseEnabled : Bool
  encryptedPassphrase : Option String
  kdfParams : KdfParams
  deriving DecidableEq

/-- A passphrase wallet that has not stored its passphrase yet. -/
def PoolWallet.awaitingCapture (w : PoolWallet) : Bool :=
  w.passphraseEnabled && w.encryptedPassphrase.isNone

/-- The options of `populate`. -/
structure PopulateOpts where
  password : Option String
  bip39Passphrase : String
  masterKey : Bool
  masterKeyKdfParams : Option KdfParams
  deriving DecidableEq

/-- The supplied master key opens the wallet. -/
def PopulateOpts.hasMatchingMasterKey (opts : PopulateOpts) (w : PoolWallet) : Bool :=
  opts.masterKey && opts.masterKeyKdfParams.any (kdfParamsEqual w.kdfParams)

structure PopulateSummary where
  pooled : List String := []
  skipped : List String := []
  passphraseMatched : List String := []
  passphraseMismatch : List String := []
  passphraseMismatchNames : List String := []
  passphraseCaptureNeeded : List String := []
  passphraseCaptureNames : List String := []
  deriving DecidableEq

/-! ### Ownership of the stored addresses -/

structure StoredAddress where
  derivationPath : Option String
  publicKey : Option String
  deriving DecidableEq

/-- What the reads of the check answer. `comparable` says that the vault has the collections and
that the signer can derive. -/
structure OwnershipReads where
  comparable : Bool
  accounts : Except String (List String)
  addresses : String → Except String (List StoredAddress)
  publicKey : String → Except String String

/-- The path and the public key of a stored address that can be compared. -/
def StoredAddress.comparison (a : StoredAddress) : Option (String × String) :=
  match a.derivationPath, a.publicKey with
  | some path, some key =>
    if (path.toList.take 2 = ['m', '/']) ∧ key ≠ "" then some (path, key) else none
  | _, _ => none

/-- The loop over the accounts: the first address that can be compared decides. -/
def OwnershipReads.compare (reads : OwnershipReads) :
    List String → Except String (Option Bool)
  | [] => .ok none
  | account :: rest =>
    match reads.addresses account with
    | .error e => .error e
    | .ok addrs =>
      match addrs.findSome? StoredAddress.comparison with
      | none => reads.compare rest
      | some (path, stored) =>
        match reads.publicKey path with
        | .error _ => .ok none
        | .ok publicKey => .ok (some (lowerCase publicKey = lowerCase stored))

/-- Whether the seed of the signer owns the stored addresses of the wallet, `none` where there is
nothing to compare. A read that rejects rejects the check. -/
def seedOwnsStoredAddresses (reads : OwnershipReads) : Except String (Option Bool) :=
  if reads.comparable then
    match reads.accounts with
    | .error e => .error e
    | .ok accounts => reads.compare accounts
  else .ok none

/-! ### Operations -/

/-- An unlocked signer: its number, and the operation that has unlocked it. -/
structure Signer where
  ref : ℕ
  op : ℕ
  deriving DecidableEq

structure PoolToken where
  session : ℕ
  mutation : ℕ
  deriving DecidableEq

inductive PoolError
  | passphraseMismatch (walletNames : List String)
  | failed (message : String)
  deriving DecidableEq

/-- How an operation settles. -/
inductive PoolOutcome
  | populated (summary : PopulateSummary)
  | captured (record : PoolWallet)
  | unlockedOne
  | threw (error : PoolError)
  deriving DecidableEq

/-- The loop of `populate` at one wallet. -/
structure PopulateTurn where
  opts : PopulateOpts
  wallet : PoolWallet
  token : PoolToken
  todo : List PoolWallet
  summary : PopulateSummary
  deriving DecidableEq

/-- Where an operation awaits, and the signer it has in hand. -/
inductive PoolPc
  | listing (opts : PopulateOpts)
  | unlocking (turn : PopulateTurn)
  | checking (turn : PopulateTurn) (signer : Signer)
  | captureUnlocking (wallet : PoolWallet) (token : PoolToken)
  | captureChecking (wallet : PoolWallet) (token : PoolToken) (signer : Signer)
  | captureSealing (wallet : PoolWallet) (token : PoolToken) (signer : Signer)
  | captureReading (wallet : PoolWallet) (token : PoolToken) (signer : Signer)
      (encryptedPassphrase : String)
  | capturePutting (record : PoolWallet) (walletId : String) (token : PoolToken)
      (signer : Signer)
  | oneUnlocking (walletId : String) (token : PoolToken)
  | settled (outcome : PoolOutcome)
  deriving DecidableEq

/-- The signer that an operation has unlocked and still has in hand. -/
def PoolPc.signer : PoolPc → Option Signer
  | checking _ signer => some signer
  | captureChecking _ _ signer => some signer
  | captureSealing _ _ signer => some signer
  | captureReading _ _ signer _ => some signer
  | capturePutting _ _ _ signer => some signer
  | _ => none

/-- The token that an operation works under. -/
def PoolPc.token : PoolPc → Option PoolToken
  | unlocking turn => some turn.token
  | checking turn _ => some turn.token
  | captureUnlocking _ token => some token
  | captureChecking _ token _ => some token
  | captureSealing _ token _ => some token
  | captureReading _ token _ _ => some token
  | capturePutting _ _ token _ => some token
  | oneUnlocking _ token => some token
  | _ => none

/-- An operation: the session in which it began, and where it awaits. -/
structure PoolOp where
  startedIn : ℕ
  pc : PoolPc
  deriving DecidableEq

/-- What an `await` comes back with. -/
inductive PoolAnswer
  | listed (wallets : Except String (List PoolWallet))
  | unlocked (result : Except String Unit)
  | checked (reads : OwnershipReads)
  | sealed (result : Except String String)
  | read (current : Except String (Option PoolWallet))
  | written (result : Except String Unit)

/-! ### The pool -/

structure PoolWorld where
  signers : List (String × Signer)
  session : ℕ
  nextMutation : ℕ
  walletMutations : String → Option ℕ
  unlocked : List Signer
  locked : List Signer
  ops : ℕ → Option PoolOp

namespace PoolWorld

def start : PoolWorld where
  signers := []
  session := 0
  nextMutation := 1
  walletMutations := fun _ => none
  unlocked := []
  locked := []
  ops := fun _ => none

/-- `_beginMutation`. -/
def beginMutation (s : PoolWorld) (walletId : String) : PoolWorld × PoolToken :=
  ({ s with
      nextMutation := s.nextMutation + 1
      walletMutations := Function.update s.walletMutations walletId (some s.nextMutation) },
    ⟨s.session, s.nextMutation⟩)

/-- `_isCurrent`. -/
def isCurrent (s : PoolWorld) (walletId : String) (token : PoolToken) : Bool :=
  token.session = s.session ∧ s.walletMutations walletId = some token.mutation

/-- An unlock by the operation has succeeded. -/
def unlock (s : PoolWorld) (op : ℕ) : PoolWorld × Signer :=
  let signer : Signer := ⟨s.unlocked.length, op⟩
  ({ s with unlocked := s.unlocked ++ [signer] }, signer)

/-- `signer.lock()`. -/
def lock (s : PoolWorld) (signer : Signer) : PoolWorld :=
  { s with locked := s.locked ++ [signer] }

/-- Put a signer in the pool, and lock the one that it replaces. -/
def pool (s : PoolWorld) (walletId : String) (signer : Signer) : PoolWorld :=
  { s with
    locked := s.locked ++ ((Keyed.find Prod.fst walletId s.signers).map Prod.snd).toList
    signers := Keyed.upsert Prod.fst (walletId, signer) s.signers }

/-- `evict`. -/
def evict (s : PoolWorld) (walletId : String) : PoolWorld :=
  { s with
    nextMutation := s.nextMutation + 1
    walletMutations := Function.update s.walletMutations walletId (some s.nextMutation)
    locked := s.locked ++ ((Keyed.find Prod.fst walletId s.signers).map Prod.snd).toList
    signers := Keyed.erase Prod.fst walletId s.signers }

/-- `lockAll`. -/
def lockAll (s : PoolWorld) : PoolWorld :=
  { s with
    session := s.session + 1
    walletMutations := fun _ => none
    locked := s.locked ++ s.signers.map Prod.snd
    signers := [] }

def setOp (s : PoolWorld) (i : ℕ) (op : PoolOp) : PoolWorld :=
  { s with ops := Function.update s.ops i (some op) }

/-! ### What an operation does between two awaits -/

/-- A method that throws with its signer in hand locks it first. -/
def abandon (s : PoolWorld) (signer : Signer) (error : PoolError) : PoolWorld × PoolPc :=
  (s.lock signer, .settled (.threw error))

/-- The loop of `populate` up to its next unlock. -/
def populateNext (opts : PopulateOpts) (s : PoolWorld) (summary : PopulateSummary) :
    List PoolWallet → PoolWorld × PoolPc
  | [] => (s, .settled (.populated summary))
  | w :: todo =>
    let begun := s.beginMutation w.id
    if w.awaitingCapture ∧ opts.bip39Passphrase = "" then
      populateNext opts begun.1
        { summary with
          passphraseCaptureNeeded := summary.passphraseCaptureNeeded ++ [w.id]
          passphraseCaptureNames := summary.passphraseCaptureNames ++ [w.name] } todo
    else if ¬opts.hasMatchingMasterKey w ∧ opts.password.all (· = "") then
      populateNext opts begun.1 { summary with skipped := summary.skipped ++ [w.id] } todo
    else (begun.1, .unlocking ⟨opts, w, begun.2, todo, summary⟩)

/-- The signer of a turn is locked: the loop goes on, unless the session is over. -/
def populateDrop (turn : PopulateTurn) (s : PoolWorld) (signer : Signer)
    (summary : PopulateSummary) : PoolWorld × PoolPc :=
  if turn.token.session ≠ s.session then (s.lock signer, .settled (.populated summary))
  else populateNext turn.opts (s.lock signer) summary turn.todo

/-- The signer of a turn goes into the pool, and the loop goes on. -/
def populatePool (turn : PopulateTurn) (s : PoolWorld) (signer : Signer)
    (summary : PopulateSummary) : PoolWorld × PoolPc :=
  populateNext turn.opts (s.pool turn.wallet.id signer)
    { summary with pooled := summary.pooled ++ [turn.wallet.id] } turn.todo

/-- A turn of `populate` after its unlock has failed. -/
def populateSkip (turn : PopulateTurn) (s : PoolWorld) : PoolWorld × PoolPc :=
  if turn.token.session ≠ s.session then (s, .settled (.populated turn.summary))
  else populateNext turn.opts s
    { turn.summary with skipped := turn.summary.skipped ++ [turn.wallet.id] } turn.todo

/-- A turn of `populate` after its unlock has succeeded. -/
def populateUnlocked (turn : PopulateTurn) (s : PoolWorld) (signer : Signer) :
    PoolWorld × PoolPc :=
  if ¬s.isCurrent turn.wallet.id turn.token then populateDrop turn s signer turn.summary
  else if turn.wallet.awaitingCapture then (s, .checking turn signer)
  else populatePool turn s signer turn.summary

/-- A turn of `populate` after the ownership check. There is no `catch` around the check: if it
rejects, so does `populate`, with the signer in hand. -/
def populateChecked (turn : PopulateTurn) (s : PoolWorld) (signer : Signer)
    (owns : Except String (Option Bool)) : PoolWorld × PoolPc :=
  match owns with
  | .error e => (s, .settled (.threw (.failed e)))
  | .ok owns =>
    if ¬s.isCurrent turn.wallet.id turn.token then populateDrop turn s signer turn.summary
    else if owns = some false then
      populateNext turn.opts (s.lock signer)
        { turn.summary with
          passphraseMismatch := turn.summary.passphraseMismatch ++ [turn.wallet.id]
          passphraseMismatchNames := turn.summary.passphraseMismatchNames ++ [turn.wallet.name] }
        turn.todo
    else populatePool turn s signer
      { turn.summary with
        passphraseMatched := turn.summary.passphraseMatched ++ [turn.wallet.id] }

/-- `captureOne` goes on under a token that is current, and throws under one that is not. -/
def captureCurrent (s : PoolWorld) (walletId : String) (token : PoolToken) (signer : Signer)
    (rest : PoolWorld × PoolPc) : PoolWorld × PoolPc :=
  if s.isCurrent walletId token then rest
  else s.abandon signer (.failed "SignerPool.captureOne: signer unlock was cancelled")

/-- An operation comes back from its `await`. -/
def resume (s : PoolWorld) (i : ℕ) (op : PoolOp) : PoolAnswer → Option (PoolWorld × PoolPc)
  | .listed wallets =>
    match op.pc, wallets with
    | .listing _, .error e => some (s, .settled (.threw (.failed e)))
    | .listing opts, .ok wallets =>
      if s.session ≠ op.startedIn then some (s, .settled (.populated {}))
      else some (populateNext opts s {} wallets)
    | _, _ => none
  | .unlocked result =>
    match op.pc, result with
    | .unlocking turn, .error _ => some (populateSkip turn s)
    | .unlocking turn, .ok _ => some (populateUnlocked turn (s.unlock i).1 (s.unlock i).2)
    | .captureUnlocking _ _, .error e => some (s, .settled (.threw (.failed e)))
    | .captureUnlocking wallet token, .ok _ =>
      let (s, signer) := s.unlock i
      some (s.captureCurrent wallet.id token signer (s, .captureChecking wallet token signer))
    | .oneUnlocking _ _, .error e => some (s, .settled (.threw (.failed e)))
    | .oneUnlocking walletId token, .ok _ =>
      let (s, signer) := s.unlock i
      if s.isCurrent walletId token then some (s.pool walletId signer, .settled .unlockedOne)
      else some (s.abandon signer (.failed "SignerPool.unlockOne: signer unlock was cancelled"))
    | _, _ => none
  | .checked reads =>
    match op.pc with
    | .checking turn signer =>
      some (populateChecked turn s signer (seedOwnsStoredAddresses reads))
    | .captureChecking wallet token signer =>
      match seedOwnsStoredAddresses reads with
      | .error e => some (s.abandon signer (.failed e))
      | .ok owns => some <| s.captureCurrent wallet.id token signer <|
          if owns = some true then (s, .captureSealing wallet token signer)
          else s.abandon signer (.passphraseMismatch ([wallet.name].filter (· ≠ "")))
    | _ => none
  | .sealed result =>
    match op.pc, result with
    | .captureSealing _ _ signer, .error e => some (s.abandon signer (.failed e))
    | .captureSealing wallet token signer, .ok encrypted =>
      some (s, .captureReading wallet token signer encrypted)
    | _, _ => none
  | .read current =>
    match op.pc, current with
    | .captureReading _ _ signer _, .error e => some (s.abandon signer (.failed e))
    | .captureReading wallet token signer encrypted, .ok current =>
      let record := { current.getD wallet with encryptedPassphrase := some encrypted }
      some (s.captureCurrent wallet.id token signer
        (s, .capturePutting record wallet.id token signer))
    | _, _ => none
  | .written result =>
    match op.pc, result with
    | .capturePutting _ _ _ signer, .error e => some (s.abandon signer (.failed e))
    | .capturePutting record walletId token signer, .ok _ =>
      some (s.captureCurrent walletId token signer
        (s.pool walletId signer, .settled (.captured record)))
    | _, _ => none

/-! ### Steps -/

/-- An operation as it is called. -/
inductive PoolCall
  | populate (opts : PopulateOpts)
  | captureOne (wallet : PoolWallet) (bip39Passphrase : String)
  | unlockOne (walletId : String)

/-- What an operation does up to its first `await`. -/
def begin (s : PoolWorld) : PoolCall → PoolWorld × PoolPc
  | .populate opts =>
    if opts.masterKey ∧ opts.masterKeyKdfParams = none then
      (s, .settled (.threw (.failed
        "SignerPool.populate: a supplied masterKey needs the kdfParams it was derived with")))
    else (s, .listing opts)
  | .captureOne wallet bip39Passphrase =>
    if bip39Passphrase = "" then
      (s, .settled (.threw (.failed "SignerPool.captureOne: bip39Passphrase is required")))
    else
      let begun := s.beginMutation wallet.id
      (begun.1, .captureUnlocking wallet begun.2)
  | .unlockOne walletId =>
    let begun := s.beginMutation walletId
    (begun.1, .oneUnlocking walletId begun.2)

/-- What can happen: an operation begins or comes back from an `await`, a wallet is evicted, or
the session is locked. -/
inductive PoolAct
  | begin (i : ℕ) (call : PoolCall)
  | resume (i : ℕ) (answer : PoolAnswer)
  | evict (walletId : String)
  | lockAll

def step (s : PoolWorld) : PoolAct → Option PoolWorld
  | .begin i call =>
    match s.ops i with
    | some _ => none
    | none =>
      let begun := s.begin call
      some (begun.1.setOp i ⟨s.session, begun.2⟩)
  | .resume i answer =>
    match s.ops i with
    | none => none
    | some op => (s.resume i op answer).map fun r => r.1.setOp i ⟨op.startedIn, r.2⟩
  | .evict walletId => some (s.evict walletId)
  | .lockAll => some s.lockAll

end PoolWorld

end XchainWallet
