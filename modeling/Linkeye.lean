import Linkeye.Dbft.Electorate
import Linkeye.Dbft.Network
import Linkeye.Dbft.Batches
import Linkeye.Dbft.RoundCodec
import Linkeye.Poa.Sealing
import Linkeye.Dpos.SigningRate
import Linkeye.Miner.Creations
import Linkeye.Rlp.Streaming
import Linkeye.Core.WireForm
import Linkeye.Core.LookupIndex
import Linkeye.Core.BloomBits
import Linkeye.Core.GasAccounting
import Linkeye.Core.CommittedState
import Linkeye.Dbft.Backlog
import Linkeye.Dbft.Waiting
import Linkeye.Dbft.Locks
import Linkeye.Core.Signing
import Linkeye.Vm.FailedCalls
import Linkeye.Vm.MemoryUse
import Linkeye.Bft.Snapshots
import Linkeye.Dbft.Unlocking
import Linkeye.Dpos.Candidates
import Linkeye.Dpos.Turns
import Linkeye.Let.Limits
import Linkeye.Miner.Refusals
import Linkeye.P2p.Discover
import Linkeye.Poa.SigningWindow
import Linkeye.Trie.Keys
