import XchainWallet.Background.AutoLock
import XchainWallet.Background.OwnSpendsExclusive
import XchainWallet.Bridge.ConnectOnce
import XchainWallet.Bridge.GrantsKept
import XchainWallet.Bridge.InsideGrant
import XchainWallet.Bridge.SettledOnce
import XchainWallet.Bridge.SignAction
import XchainWallet.Cosigner.WindowRuns
import XchainWallet.Decoder.OnePostState
import XchainWallet.Flows.AddressScan
import XchainWallet.Flows.AdsConserved
import XchainWallet.Flows.BackupReminted
import XchainWallet.Flows.IndexesOnce
import XchainWallet.Flows.LabelSyncRestore
import XchainWallet.Flows.LabelSyncWindows
import XchainWallet.Flows.MultisigProtocol
import XchainWallet.Flows.PendingDeltas
import XchainWallet.Flows.RbfPlan
import XchainWallet.Flows.ReservationsKept
import XchainWallet.Flows.ReservedTotals
import XchainWallet.Flows.SendTotals
import XchainWallet.Flows.SignThrottle
import XchainWallet.Flows.SubmitCleared
import XchainWallet.Flows.VerifyBuiltAction
import XchainWallet.Flows.WalletRemoved
import XchainWallet.Market.ConsentHistory
import XchainWallet.Market.OrderMath
import XchainWallet.Market.Orderbook
import XchainWallet.Notifications.AlertsSettled
import XchainWallet.Notifications.CapKept
import XchainWallet.Notifications.ChainsApart
import XchainWallet.Notifications.DeadlineOnce
import XchainWallet.Notifications.PaidOnce
import XchainWallet.Notifications.RetiredChains
import XchainWallet.Queue.FlushOnce
import XchainWallet.Queue.PersistedRecord
import XchainWallet.Sdk.CoalescingIsolated
import XchainWallet.Sdk.LimiterBudget
import XchainWallet.Sdk.P2shReveal
import XchainWallet.Shared.LocaleRoundTrip
import XchainWallet.Signers.DeviceRequests
import XchainWallet.Signers.MultisigMatching
import XchainWallet.Signers.SignatureChecksAgree
import XchainWallet.Signers.SignersAccounted
import XchainWallet.Uri.BbqrRoundTrip
import XchainWallet.Uri.FountainTurns
import XchainWallet.Uri.MultisigFingerprint
import XchainWallet.Uri.UrRuns
import XchainWallet.Uri.XchainDestinations
import XchainWallet.Uri.XchainRoundTrip
import XchainWallet.Uri.XcwRoundTrip
import XchainWallet.Vault.KeyChange
import XchainWallet.Vault.Lock
import XchainWallet.Vault.Settled
