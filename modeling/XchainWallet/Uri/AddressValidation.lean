import XchainWallet.Uri.UriText

/-!
# Address validation

What the wallet takes for an address: a base58check text with a version byte of the network, a
segwit address under its prefix, or the placeholder that a development build derives. The decoders
of the two encodings come from a package and are parameters; what is asked of their results is not.
-/

namespace XchainWallet

/-- The supported coins. -/
inductive Coin where
  | bitcoin
  | litecoin
  | dogecoin
deriving DecidableEq

/-- The networks of a coin. -/
inductive NetworkKind where
  | mainnet
  | testnet
  | regtest
deriving DecidableEq

def Coin.name : Coin → List Char
  | bitcoin => "bitcoin".toList
  | litecoin => "litecoin".toList
  | dogecoin => "dogecoin".toList

def NetworkKind.name : NetworkKind → List Char
  | mainnet => "mainnet".toList
  | testnet => "testnet".toList
  | regtest => "regtest".toList

/-- A coin and one of its networks. -/
structure CoinNetwork where
  coin : Coin
  networkKind : NetworkKind
deriving DecidableEq

/-- The supported chains, in the order of the tables. -/
def coinNetworks : List CoinNetwork :=
  [⟨.bitcoin, .mainnet⟩, ⟨.bitcoin, .testnet⟩, ⟨.bitcoin, .regtest⟩,
    ⟨.litecoin, .mainnet⟩, ⟨.litecoin, .testnet⟩, ⟨.litecoin, .regtest⟩,
    ⟨.dogecoin, .mainnet⟩, ⟨.dogecoin, .testnet⟩, ⟨.dogecoin, .regtest⟩]

/-! ### Placeholders of development builds -/

/-- The prefixes of `MOCK_ADDRESS_PREFIXES` for a chain. -/
def mockAddressPrefixes (chain : CoinNetwork) : List (List Char) :=
  match chain.coin, chain.networkKind with
  | .bitcoin, .mainnet =>
    ["1devmock".toList, "3devmock".toList, "bc1qdevmock".toList, "bc1pdevmock".toList]
  | .bitcoin, .testnet =>
    ["mdevmock".toList, "2devmock".toList, "tb1qdevmock".toList, "tb1pdevmock".toList]
  | .bitcoin, .regtest =>
    ["mdevmock".toList, "2devmock".toList, "bcrt1qdevmock".toList, "bcrt1pdevmock".toList]
  | .litecoin, .mainnet => ["Ldevmock".toList, "Mdevmock".toList, "ltc1qdevmock".toList]
  | .litecoin, .testnet => ["mdevmock".toList, "2devmock".toList, "tltc1qdevmock".toList]
  | .litecoin, .regtest => ["mdevmock".toList, "2devmock".toList, "rltc1qdevmock".toList]
  | .dogecoin, .mainnet => ["Ddevmock".toList]
  | .dogecoin, .testnet => ["ndevmock".toList]
  | .dogecoin, .regtest => ["ndevmock".toList]

/-- `MOCK_TAIL_LENGTH`. -/
def mockTailLength : ℕ := 24

/-- `isDevMockAddress(address)`: a prefix of the table, and lower-case hex digits up to its end. -/
def isDevMockAddress (address : List Char) : Bool :=
  let address := jsTrim address
  (coinNetworks.flatMap mockAddressPrefixes).any fun mock =>
    let tail := address.drop mock.length
    mock.isPrefixOf address && decide (tail.length ≤ mockTailLength) &&
      tail.all (· ∈ Wire.hexDigits)

/-! ### Encodings -/

/-- What a bech32 decoder reads: the prefix, and the words of five bits behind it. -/
structure Bech32Decoded where
  humanPrefix : List Char
  words : List ℕ

/-- The decoder of one of the two checksums, and the regrouping of words to bytes. A result is
`none` where the package throws. -/
structure Bech32Codec where
  decode : List Char → ℕ → Option Bech32Decoded
  fromWords : List ℕ → Option (List UInt8)

/-- The decoders that the validation uses. -/
structure AddressCodecs where
  base58check : List Char → Option (List UInt8)
  bech32 : Bech32Codec
  bech32m : Bech32Codec

/-- A row of `ADDRESS_PARAMS`: the version bytes, and the segwit prefix where the coin has one. -/
structure AddressParams where
  p2pkh : UInt8
  p2sh : UInt8
  hrp : Option (List Char)
deriving DecidableEq

/-- `ADDRESS_PARAMS[coin][network]`. -/
def addressParams (chain : CoinNetwork) : AddressParams :=
  match chain.coin, chain.networkKind with
  | .bitcoin, .mainnet => ⟨0x00, 0x05, some "bc".toList⟩
  | .bitcoin, .testnet => ⟨0x6f, 0xc4, some "tb".toList⟩
  | .bitcoin, .regtest => ⟨0x6f, 0xc4, some "bcrt".toList⟩
  | .litecoin, .mainnet => ⟨0x30, 0x32, some "ltc".toList⟩
  | .litecoin, .testnet => ⟨0x6f, 0xc4, some "tltc".toList⟩
  | .litecoin, .regtest => ⟨0x6f, 0xc4, some "rltc".toList⟩
  | .dogecoin, .mainnet => ⟨0x1e, 0x16, none⟩
  | .dogecoin, .testnet => ⟨0x71, 0xc4, none⟩
  | .dogecoin, .regtest => ⟨0x6f, 0xc4, none⟩

/-- `MAX_ADDRESS_LENGTH`. -/
def maxAddressLength : ℕ := 90

/-- What is asked of a text that one of the decoders has read. -/
def isSegwitDecoded (codec : Bech32Codec) (isBech32 : Bool) (hrp : List Char)
    (decoded : Bech32Decoded) : Bool :=
  match decoded.words with
  | [] => false
  | version :: words =>
    if decoded.humanPrefix ≠ hrp ∨ 16 < version then false
    -- Version 0 takes the first checksum, the others take the second.
    else if (version = 0) ≠ (isBech32 = true) then false
    else
      match codec.fromWords words with
      | none => false
      | some program =>
        2 ≤ program.length ∧ program.length ≤ 40 ∧
          (version = 0 → program.length = 20 ∨ program.length = 32)

namespace AddressCodecs

variable (codecs : AddressCodecs)

/-- `isSegwitAddress(lower, hrp)`: what the first decoder to read the text makes of it. -/
def isSegwitAddress (lower hrp : List Char) : Bool :=
  match codecs.bech32.decode lower maxAddressLength with
  | some decoded => isSegwitDecoded codecs.bech32 true hrp decoded
  | none =>
    match codecs.bech32m.decode lower maxAddressLength with
    | some decoded => isSegwitDecoded codecs.bech32m false hrp decoded
    | none => false

/-- The base58check text of 21 bytes with a version byte of the network. -/
def isLegacyAddress (address : List Char) (params : AddressParams) : Bool :=
  match codecs.base58check address with
  | some payload =>
    payload.length = 21 ∧ (payload.head? = some params.p2pkh ∨ payload.head? = some params.p2sh)
  | none => false

/-- `matchesParams(address, params)`. -/
def matchesParams (address : List Char) (params : AddressParams) : Bool :=
  let lower := jsLowerText address
  if maxAddressLength < jsLength address then false
  else
    match params.hrp.filter fun hrp => (hrp ++ ['1']).isPrefixOf lower with
    | some hrp =>
      if address ≠ lower ∧ address ≠ jsUpperText address then false
      else codecs.isSegwitAddress lower hrp
    | none => codecs.isLegacyAddress address params

/-- `isValidAddressForChain(address, coin, network)`. -/
def isValidAddressForChain (address : List Char) (chain : CoinNetwork) : Bool :=
  let a := jsTrim address
  if a = [] then false
  else if isDevMockAddress a then true
  else codecs.matchesParams a (addressParams chain)

/-- `isValidAddressAnyNetwork(address)`. -/
def isValidAddressAnyNetwork (address : List Char) : Bool :=
  let a := jsTrim address
  if a = [] then false
  else if isDevMockAddress a then true
  else coinNetworks.any fun chain => codecs.matchesParams a (addressParams chain)

end AddressCodecs

end XchainWallet
