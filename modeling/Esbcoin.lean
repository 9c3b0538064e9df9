import Esbcoin.Coins.Simulation
import Esbcoin.Validation.StakeRuns
import Esbcoin.SwiftTX.Completion
import Esbcoin.Net.NextBlocks
import Esbcoin.Mempool.Exact
import Esbcoin.Validation.Bounds
import Esbcoin.Validation.FilterFollows
import Esbcoin.Masternode.SeenMessages
import Esbcoin.Masternode.Collateral
import Esbcoin.Masternode.LastPings
import Esbcoin.Script.StackSafety
import Esbcoin.Net.AddrManRuns
import Esbcoin.Obfuscation.SignFinal
import Esbcoin.Obfuscation.Signatures
import Esbcoin.Alert
import Esbcoin.GM.Replay
import Esbcoin.Validation.CheckQueue
import Esbcoin.Net.MessageFrames
import Esbcoin.Chain.TreeReloaded
import Esbcoin.Validation.KernelSearch
import Esbcoin.Chain.ModifierSelection
import Esbcoin.Spork
import Esbcoin.SwiftTX.Counted
import Esbcoin.Masternode.FreshNode
import Esbcoin.Validation.StakeInput
import Esbcoin.Validation.HeaderWork
import Esbcoin.Validation.NextTarget
import Esbcoin.Chain.WorkGrowth
import Esbcoin.Masternode.AskAgain
import Esbcoin.Masternode.SyncEntries
import Esbcoin.Masternode.RandomPick
import Esbcoin.Masternode.NextInQueue
import Esbcoin.Masternode.PaidLevels
import Esbcoin.Masternode.SyncRestart
import Esbcoin.Validation.ForkVerdict
import Esbcoin.Merkle.ExtractMatches
import Esbcoin.Merkle.RepeatedMatches
import Esbcoin.Mining.StakeCredit
import Esbcoin.Mining.BlockSignature
import Esbcoin.Wallet.CreateTransaction
import Esbcoin.Wallet.KeyPool
import Esbcoin.Wallet.AddressGroupings
import Esbcoin.Coins.DiskCoins
import Esbcoin.Net.BloomFilter
import Esbcoin.Serialize.Numbers
import Esbcoin.Script.PushRead
import Esbcoin.LimitedMap
import Esbcoin.Validation.SupplyCap
