import AmazeChain.Common.Block
import AmazeChain.Common.Transaction
import Mathlib.Data.UInt

/-!
# The downloader's message handler

`Downloader.ConnHandler` (`internal/download/download.go`) and the `responseHeaders` goroutine it starts
(`response.go`), over the `sync_proto.SyncTask` a peer sends as `proto.Unmarshal` decodes it: the message
of a set oneof case is present, every other submessage may be absent, and a repeated field may be empty.
A payload case holds the fields of its message.  A panic in the handler or in a goroutine it starts is
`none`; either stops the node.  `SyncType` values the enum does not name are handled like the types the
switch has no case for.

The handler trusts its input: it asserts the payload case its `SyncType` names, reads the first and the
last entry of a peer's list and dereferences the numbers in them.  `responseHeaders` allocates as many
slots as the peer asks for (`responseHeaders_capacity`); more than `2 ^ 45` is a `makeslice` panic.
The gossip loop for transactions (`txsMessageFetcherLoop`) hands every decoded message to
`FromProtoMessage`, which dereferences its sender.
-/

namespace AmazeChain.Download

open Utils Common

inductive SyncType where
  | findReq
  | findRes
  | headerReq
  | headerRes
  | bodyReq
  | bodyRes
  | stateReq
  | stateRes
  | transactionReq
  | transactionRes
  | peerInfoBroadcast
  deriving DecidableEq

structure SyncHeaderRequest where
  number : Option H256
  amount : Option H256
  deriving DecidableEq

structure SyncPeerInfoBroadcast where
  difficulty : Option H256
  number : Option H256
  deriving DecidableEq

/-- `types_pb.Block`; its body message is a parameter. -/
structure PbBlock (PbBody : Type) where
  header : Option PbHeader
  body : Option PbBody

inductive Payload (PbBody : Type) where
  | syncHeaderRequest (request : SyncHeaderRequest)
  | syncHeaderResponse (headers : List PbHeader)
  | syncBlockRequest (number : List H256)
  | syncBlockResponse (blocks : List (PbBlock PbBody))
  | syncTransactionRequest (bloom : List UInt8)
  | syncTransactionResponse (transactions : List PbTransaction)
  | syncPeerInfoBroadcast (info : SyncPeerInfoBroadcast)

structure SyncTask (PbBody : Type) where
  id : UInt64
  ok : Bool
  syncType : SyncType
  payload : Option (Payload PbBody)

inductive ConnError where
  | errBadPeer
  | unmarshal
  deriving DecidableEq

/-- What the handler does with a task it accepts. -/
inductive Handled (PbBody : Type) where
  /-- sent to `headerProcCh` -/
  | headerResponse (taskID : UInt64) (ok : Bool) (headers : List PbHeader)
  /-- `go d.responseHeaders(taskID, p, headerRequest)` -/
  | respondHeaders (taskID : UInt64) (request : SyncHeaderRequest)
  /-- sent to `blockProcCh` -/
  | bodyResponse (taskID : UInt64) (ok : Bool) (bodies : List (PbBlock PbBody))
  /-- `go d.responseBlocks(taskID, p, blockRequest)` -/
  | respondBlocks (taskID : UInt64) (number : List H256)
  /-- the peer's number and difficulty, for `highestNumber` and `peersInfo.update` -/
  | peerInfo (number difficulty : Uint256)
  | ignored

variable {PbBody : Type}

/-- The `SyncType` a payload case answers. -/
def Payload.syncType : Payload PbBody → SyncType
  | syncHeaderRequest _ => .headerReq
  | syncHeaderResponse _ => .headerRes
  | syncBlockRequest _ => .bodyReq
  | syncBlockResponse _ => .bodyRes
  | syncTransactionRequest _ => .transactionReq
  | syncTransactionResponse _ => .transactionRes
  | syncPeerInfoBroadcast _ => .peerInfoBroadcast

/-- `ConnHandler`: `data` is `none` when `proto.Unmarshal` rejects the bytes. -/
def connHandler (known : Bool) (data : Option (SyncTask PbBody)) : Option (Except ConnError (Handled PbBody)) :=
  if ¬known then some (.error .errBadPeer) else
  match data with
  | none => some (.error .unmarshal)
  | some task =>
    match task.syncType with
    | .headerRes => do
      -- the type assertion on the payload panics on any other case
      let some (.syncHeaderResponse headers) := task.payload | none
      -- the log line converts the numbers of the first and the last header
      let first ← headers.head?
      let last ← headers.getLast?
      let _ ← convertH256ToUint256Int first.number
      let _ ← convertH256ToUint256Int last.number
      pure (.ok (.headerResponse task.id task.ok headers))
    | .headerReq => do
      let some (.syncHeaderRequest request) := task.payload | none
      let _ ← convertH256ToUint256Int request.amount
      let _ ← convertH256ToUint256Int request.number
      pure (.ok (.respondHeaders task.id request))
    | .bodyRes => do
      let some (.syncBlockResponse blocks) := task.payload | none
      let first ← blocks.head?
      let last ← blocks.getLast?
      let firstHeader ← first.header
      let lastHeader ← last.header
      let _ ← convertH256ToUint256Int firstHeader.number
      let _ ← convertH256ToUint256Int lastHeader.number
      pure (.ok (.bodyResponse task.id task.ok blocks))
    | .bodyReq => do
      let some (.syncBlockRequest number) := task.payload | none
      let first ← number.head?
      let last ← number.getLast?
      let _ ← convertH256ToUint256Int (some first)
      let _ ← convertH256ToUint256Int (some last)
      pure (.ok (.respondBlocks task.id number))
    | .peerInfoBroadcast => do
      let some (.syncPeerInfoBroadcast info) := task.payload | none
      let number ← convertH256ToUint256Int info.number
      let difficulty ← convertH256ToUint256Int info.difficulty
      pure (.ok (.peerInfo number difficulty))
    | _ => pure (.ok .ignored)

/-- The loop of `responseHeaders`: `n` headers from `origin` on, or none of them with `ok = false` as
soon as one is missing. -/
def collectHeaders (getHeaderByNumber : Uint256 → Option Header) : ℕ → Option H256 → Option (Bool × List PbHeader)
  | 0, _ => some (true, [])
  | n + 1, origin => do
    let number ← convertH256ToUint256Int origin
    match getHeaderByNumber number with
    | none => pure (false, [])
    | some fullHeader => do
      let header ← fullHeader.toProtoMessage
      let (ok, rest) ← collectHeaders getHeaderByNumber n
        (convertUint256IntToH256 (some (number.add (Uint256.ofUInt64 1))))
      -- a later miss empties the slice: `headers = headers[0:0]`
      pure (if ok then (true, header :: rest) else (false, []))

/-- `responseHeaders`: the capacity of the slice it makes, the `ok` flag and the headers it sends. -/
def responseHeaders (getHeaderByNumber : Uint256 → Option Header) (task : SyncHeaderRequest) :
    Option (ℕ × Bool × List PbHeader) := do
  let amount ← convertH256ToUint256Int task.amount
  let capacity := amount.w0.toNat
  -- `makeslice` panics when the slice of pointers would need more than `maxAlloc = 2 ^ 48` bytes;
  -- below that the loop bound `int(Amount.Uint64())` is the amount itself
  if 2 ^ 48 < 8 * capacity then none
  else
    let (ok, headers) ← collectHeaders getHeaderByNumber capacity task.number
    pure (capacity, ok, headers)

/-! ### What a peer's message can do -/

/-- The five types the switch handles. -/
def handledTypes : List SyncType := [.headerReq, .headerRes, .bodyReq, .bodyRes, .peerInfoBroadcast]

/-- A payload of another case than the task's type is a failed type assertion. -/
theorem connHandler_eq_none_of_mismatch (task : SyncTask PbBody) (hhandled : task.syncType ∈ handledTypes)
    (hcase : task.payload.map Payload.syncType ≠ some task.syncType) : connHandler true (some task) = none := by
  obtain ⟨id, ok, syncType, payload⟩ := task
  simp only [handledTypes, List.mem_cons, List.not_mem_nil, or_false] at hhandled
  -- one case for each handled type, then one for each payload case
  rcases hhandled with rfl | rfl | rfl | rfl | rfl <;>
  · cases payload with
    | none => rfl
    | some p => cases p <;> simp_all [connHandler, Payload.syncType]

/-- An empty list in a response or a block request: the handler reads its first entry. -/
theorem connHandler_eq_none_of_empty (id : UInt64) (ok : Bool) :
    connHandler true (some (⟨id, ok, .headerRes, some (.syncHeaderResponse [])⟩ : SyncTask PbBody)) = none ∧
    connHandler true (some (⟨id, ok, .bodyRes, some (.syncBlockResponse [])⟩ : SyncTask PbBody)) = none ∧
    connHandler true (some (⟨id, ok, .bodyReq, some (.syncBlockRequest [])⟩ : SyncTask PbBody)) = none :=
  ⟨rfl, rfl, rfl⟩

/-- A header request without an amount, and a broadcast without a number, dereference nil. -/
theorem connHandler_eq_none_of_nil (id : UInt64) (ok : Bool) (number difficulty : Option H256) :
    connHandler true (some (⟨id, ok, .headerReq, some (.syncHeaderRequest ⟨number, none⟩)⟩ : SyncTask PbBody)) =
      none ∧
    connHandler true
      (some (⟨id, ok, .peerInfoBroadcast, some (.syncPeerInfoBroadcast ⟨difficulty, none⟩)⟩ : SyncTask PbBody)) =
      none := by
  constructor <;> simp [connHandler, convertH256ToUint256Int]

/-- The loop sends at most as many headers as it was asked for. -/
theorem collectHeaders_length (getHeaderByNumber : Uint256 → Option Header) :
    ∀ (n : ℕ) (origin : Option H256) {ok : Bool} {headers : List PbHeader},
      collectHeaders getHeaderByNumber n origin = some (ok, headers) → headers.length ≤ n
  | 0, _, _, _, h => by
    simp only [collectHeaders, Option.some.injEq, Prod.mk.injEq] at h
    simp [← h.2]
  | n + 1, origin, ok, headers, h => by
    simp only [collectHeaders, Option.bind_eq_bind, Option.bind_eq_some_iff] at h
    obtain ⟨number, -, h⟩ := h
    split at h
    · simp only [Option.pure_def, Option.some.injEq, Prod.mk.injEq] at h
      simp [← h.2]
    · simp only [Option.pure_def, Option.bind_eq_some_iff] at h
      obtain ⟨header, -, ⟨ok', rest⟩, hrest, h⟩ := h
      have hlen := collectHeaders_length getHeaderByNumber n _ hrest
      -- the headers sent are this one and the rest, or none at all
      split at h
      · simp only [Option.some.injEq, Prod.mk.injEq] at h
        simp [← h.2, hlen]
      · simp only [Option.some.injEq, Prod.mk.injEq] at h
        simp [← h.2]

/-- The slice `responseHeaders` makes holds as many headers as the peer asked for, whatever the chain has,
and a request for more than `2 ^ 45` is a panic. -/
theorem responseHeaders_capacity (getHeaderByNumber : Uint256 → Option Header) (task : SyncHeaderRequest)
    {amount : Uint256} (hamount : convertH256ToUint256Int task.amount = some amount) :
    (2 ^ 45 < amount.w0.toNat → responseHeaders getHeaderByNumber task = none) ∧
    ∀ r ∈ responseHeaders getHeaderByNumber task, r.1 = amount.w0.toNat ∧ r.2.2.length ≤ amount.w0.toNat := by
  constructor
  · intro hlarge
    have hbig : 2 ^ 48 < 8 * amount.w0.toNat := by omega
    simp only [responseHeaders, hamount, Option.bind_eq_bind, Option.bind_some, if_pos hbig]
  · intro r hr
    simp only [responseHeaders, hamount, Option.bind_eq_bind, Option.bind_some, Option.mem_def] at hr
    split at hr
    · cases hr
    · simp only [Option.bind_eq_some_iff, Option.pure_def, Option.some.injEq] at hr
      obtain ⟨⟨ok, headers⟩, hcollect, rfl⟩ := hr
      exact ⟨rfl, collectHeaders_length getHeaderByNumber _ _ hcollect⟩

/-- A gossiped transaction without a sender, or of a type the decoder does not know, is a panic of
`FromProtoMessage`: `ConvertH160ToPAddress` dereferences the sender, and `NewTx` copies nil data. -/
theorem fromProtoMessage_eq_none {pb : PbTransaction} (h : pb.fromAddr = none ∨ 2 < pb.txType) :
    fromProtoMessage pb = none := by
  rcases h with hfrom | htype
  · simp only [fromProtoMessage, txDataFromProtoMessage, hfrom, convertH160toAddress]
    split_ifs <;> simp
  · have h0 : pb.txType ≠ 0 := by intro h; rw [h] at htype; contradiction
    have h1 : pb.txType ≠ 1 := by intro h; rw [h] at htype; contradiction
    have h2 : pb.txType ≠ 2 := by intro h; rw [h] at htype; contradiction
    simp [fromProtoMessage, txDataFromProtoMessage, h0, h1, h2]

/-- What a peer can make the node do: a payload of another case, an empty list or a missing number is a
panic of the handler; the capacity of the header slice is the peer's amount, and past `2 ^ 45` a panic;
a gossiped transaction without a sender is a panic of `FromProtoMessage`. -/
theorem connHandler_panics_on_peer_input :
    (∀ task : SyncTask PbBody, task.syncType ∈ handledTypes →
      task.payload.map Payload.syncType ≠ some task.syncType → connHandler true (some task) = none) ∧
    (∀ (id : UInt64) (ok : Bool),
      connHandler true (some (⟨id, ok, .headerRes, some (.syncHeaderResponse [])⟩ : SyncTask PbBody)) = none ∧
      connHandler true (some (⟨id, ok, .bodyRes, some (.syncBlockResponse [])⟩ : SyncTask PbBody)) = none ∧
      connHandler true (some (⟨id, ok, .bodyReq, some (.syncBlockRequest [])⟩ : SyncTask PbBody)) = none) ∧
    (∀ (getHeaderByNumber : Uint256 → Option Header) (task : SyncHeaderRequest) (amount : Uint256),
      convertH256ToUint256Int task.amount = some amount →
      (2 ^ 45 < amount.w0.toNat → responseHeaders getHeaderByNumber task = none) ∧
      ∀ r ∈ responseHeaders getHeaderByNumber task, r.1 = amount.w0.toNat ∧ r.2.2.length ≤ amount.w0.toNat) ∧
    ∀ pb : PbTransaction, pb.fromAddr = none ∨ 2 < pb.txType → fromProtoMessage pb = none :=
  ⟨connHandler_eq_none_of_mismatch, connHandler_eq_none_of_empty,
    fun getHeaderByNumber task _ hamount => responseHeaders_capacity getHeaderByNumber task hamount,
    fun _ h => fromProtoMessage_eq_none h⟩

/-- A request for `2 ^ 45` headers from block zero. -/
def largeRequest : SyncHeaderRequest :=
  ⟨convertUint256IntToH256 (some (Uint256.ofUInt64 0)), convertUint256IntToH256 (some (Uint256.ofUInt64 (2 ^ 45)))⟩

theorem connHandler_panics_on_peer_input_emptyChain :
    connHandler true (some (⟨0, true, .headerRes, some (.syncHeaderResponse [])⟩ : SyncTask Unit)) = none ∧
    (∀ r ∈ responseHeaders (fun _ => none) largeRequest, r.1 = 2 ^ 45) ∧
    responseHeaders (fun _ => none) largeRequest = some (2 ^ 45, false, []) ∧
    fromProtoMessage PbTransaction.empty = none := by
  have h := @connHandler_panics_on_peer_input Unit
  refine ⟨(h.2.1 0 true).1, fun r hr => (h.2.2.1 (fun _ => none) largeRequest _ rfl).2 r hr |>.1, rfl,
    h.2.2.2 _ (Or.inl rfl)⟩

end AmazeChain.Download
