import NdnGeth.Lib.Run
import NdnGeth.Lib.Loop
import NdnGeth.Lib.Result
import NdnGeth.Lib.Heap
import NdnGeth.Lib.Rlp
import NdnGeth.Lib.Segments
import NdnGeth.Lib.Decimal
import NdnGeth.Lib.Hex
import NdnGeth.Core.Types
import NdnGeth.Core.Encoding
import NdnGeth.Eth.Downloader
import NdnGeth.Eth.AncestorSearch
import NdnGeth.Eth.FetchHeaders
import NdnGeth.Eth.Dworker
import NdnGeth.Eth.Pipeline
import NdnGeth.Eth.BlockFetcher
import NdnGeth.Eth.BlockWork
import NdnGeth.Eth.TxFetcher
import NdnGeth.Eth.HandlerOutcome
import NdnGeth.Eth.PeerSet
import NdnGeth.Eth.PeerLife
import NdnGeth.Eth.Dhkx
import NdnGeth.Eth.Handshake
import NdnGeth.Eth.PeerLimits
import NdnGeth.Eth.PeerAnnounce
import NdnGeth.Ndnsuit.Packet
import NdnGeth.Ndnsuit.Tlv
import NdnGeth.Ndnsuit.Mixer
import NdnGeth.Ndnsuit.FetchObject
import NdnGeth.Kad.RpcMsg
import NdnGeth.Eth.EthMsg
import NdnGeth.Eth.Status
import NdnGeth.Eth.Propagation
import NdnGeth.Eth.DataFetch
import NdnGeth.Eth.Requests
import NdnGeth.Utils.WorkerPool
import NdnGeth.State.StateObject
import NdnGeth.State.Statedb
import NdnGeth.State.Views
import NdnGeth.State.Warm
import NdnGeth.State.Undo
import NdnGeth.State.Mutations
import NdnGeth.State.Flush
import NdnGeth.State.Blocks
import NdnGeth.State.Revert
import NdnGeth.State.Machine
import NdnGeth.State.Create
import NdnGeth.State.Facts
import NdnGeth.State.Calm
import NdnGeth.Vm.Common
import NdnGeth.Vm.JumpTable
import NdnGeth.Vm.Machine
import NdnGeth.Vm.Gas
import NdnGeth.Vm.Instructions
import NdnGeth.Vm.Interpreter
import NdnGeth.Vm.Effect
import NdnGeth.Vm.MemoryFacts
import NdnGeth.Vm.Modexp
import NdnGeth.Vm.GasFacts
import NdnGeth.Vm.Table
import NdnGeth.Vm.Execution
import NdnGeth.Vm.Safety
import NdnGeth.Vm.Outcome
import NdnGeth.Vm.Executions
import NdnGeth.Vm.Sent
import NdnGeth.Vm.Traces
import NdnGeth.TxPool.TxList
import NdnGeth.TxPool.Priced
import NdnGeth.TxPool.Pool
import NdnGeth.Core.StateTransition
import NdnGeth.Utils.Cacher
import NdnGeth.Kad.Common
import NdnGeth.Kad.Peersort
import NdnGeth.Kad.Algo
import NdnGeth.Kad.LookupRound
import NdnGeth.Kad.LookupPeers
import NdnGeth.Kad.LookupRounds
import NdnGeth.Kad.Rpc
import NdnGeth.Kad.Identity
import NdnGeth.Kad.RpcReply
import NdnGeth.Kad.RoutingTable
import NdnGeth.Kad.Node
import NdnGeth.Kad.Closest
import NdnGeth.Kad.SeenRecords
import NdnGeth.Kad.HostileBytes
import NdnGeth.Kad.PeerEvents
import NdnGeth.Clique.Snapshot
import NdnGeth.Clique.Voting
import NdnGeth.Clique.Engine
import NdnGeth.Clique.Recents
import NdnGeth.Chainmonitor.Latest
import NdnGeth.Vm.Arithmetic
import NdnGeth.TxPool.Lists
import NdnGeth.TxPool.Limits
import NdnGeth.TxPool.Admission
import NdnGeth.TxPool.Eviction
import NdnGeth.TxPool.Promotion
import NdnGeth.Vm.Precompiles
import NdnGeth.Core.Rejected
import NdnGeth.Core.GasLimit
import NdnGeth.Core.HeaderChain
import NdnGeth.Lib.Keccak
import NdnGeth.Core.Bloom
import NdnGeth.TxPool.PriceAndNonce
import NdnGeth.Ethash.VerifyHeaders
import NdnGeth.Common.Compress
import NdnGeth.Rlp.Encbuf
import NdnGeth.TxPool.Batch
import NdnGeth.TxPool.Reset
import NdnGeth.Clique.Sealing
import NdnGeth.Clique.Signers
