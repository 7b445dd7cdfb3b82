import AmazeChain.Lib.SlidingWindow
import AmazeChain.Lib.ExceptFold
import AmazeChain.Lib.AListBag
import AmazeChain.APos.Snapshot
import AmazeChain.APos.Apply
import AmazeChain.APos.Votes
import AmazeChain.APos.Recents
import AmazeChain.APos.Seal
import AmazeChain.APos.Reward
import AmazeChain.APos.Header
import AmazeChain.Txspool.Tx
import AmazeChain.Txspool.List
import AmazeChain.Txspool.Strict
import AmazeChain.Txspool.Lookup
import AmazeChain.Txspool.Pool
import AmazeChain.Txspool.Reorg
import AmazeChain.Txspool.Bookkeeping
import AmazeChain.Txspool.Calls
import AmazeChain.Txspool.Sender
import AmazeChain.Internal.StateTransition
import AmazeChain.Txspool.Forks
import AmazeChain.Txspool.Tip
import AmazeChain.Internal.Reorg
import AmazeChain.Internal.Fees
import AmazeChain.Internal.BlockValidator
import AmazeChain.Contracts.Deposit
import AmazeChain.Lib.SortSearch
import AmazeChain.Lib.UndoLog
import AmazeChain.Lib.ListFold
import AmazeChain.State.Object
import AmazeChain.State.AccessList
import AmazeChain.State.IntraBlockState
import AmazeChain.State.Journal
import AmazeChain.State.Frame
import AmazeChain.State.Revert
import AmazeChain.State.Entire
import AmazeChain.State.Finalise
import AmazeChain.State.Root
import AmazeChain.State.PlainState
import AmazeChain.Lib.FirstChange
import AmazeChain.State.History
import AmazeChain.Lib.WordBitmap
import AmazeChain.Vm.Analysis
import AmazeChain.Lib.BigEndian
import AmazeChain.Utils.Convert
import AmazeChain.Common.Block
import AmazeChain.Rawdb.Chain
import AmazeChain.Common.Transaction
import AmazeChain.Download.ConnHandler
import AmazeChain.Download.Sync
import AmazeChain.Vm.Call
import AmazeChain.Lib.BinaryHeap
import AmazeChain.Txspool.SortedMap
import AmazeChain.Common.Types
import AmazeChain.Lib.TwosComplement
import AmazeChain.APos.Eip1559
import AmazeChain.Vm.Memory
import AmazeChain.Vm.Gas
import AmazeChain.Vm.Interpreter
import AmazeChain.Lib.SortedList
import AmazeChain.Kv.DupSort
import AmazeChain.Changeset.Changeset
import AmazeChain.Api.EstimateGas
import AmazeChain.Txspool.Priced
import AmazeChain.Bitmapdb.Chunks
import AmazeChain.Bitmapdb.Index
import AmazeChain.Vm.SStore
import AmazeChain.Common.Hashing
import AmazeChain.State.Dirties
import AmazeChain.State.Revisions
import AmazeChain.State.View
import AmazeChain.Rlp.Encode
import AmazeChain.Rlp.Split
import AmazeChain.Rlp.Stream
import AmazeChain.Rlp.Decode
import AmazeChain.Rlp.Typed
import AmazeChain.State.RootHash
import AmazeChain.Rlp.TypedDecode
import AmazeChain.State.SnapshotCodec
import AmazeChain.Lib.Uint256
import AmazeChain.Vm.Instructions
import AmazeChain.Vm.StackSafety
import AmazeChain.Vm.Environment
import AmazeChain.Vm.JumpTable
import AmazeChain.Vm.StepSafety
import AmazeChain.Vm.TableSafety
import AmazeChain.Vm.RunSafety
