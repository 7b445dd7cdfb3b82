import Mathlib.Logic.Function.Basic
import Mathlib.Data.Nat.Notation

/-!
# The deposit table

`Deposit.eventLoop` (`contracts/deposit/contract.go`) keeps the table of deposits that `buildRewards` reads
(`rawdb.PutDeposit`, `DeleteDeposit`, `GetDeposit`).  It receives the logs of the `NewLogsEvent`s that
`insertChain` sends after a canonical insert, and for each log of the configured deposit contract it records a
`DepositEvent` whose BLS signature over the amount verifies, under the sender of the transaction that emitted
it, or removes the deposit of the sender of a `WithdrawnEvent`.  The logs of a `RemovedLogsEvent` are only
logged.

Events reach the loop through `GlobalEvent.Send` (`modules/event/v2`), which offers the event to each
subscribed channel by `TrySend`.  The loop's channels are unbuffered, so an event is received only when the
loop is waiting on its channel and is dropped otherwise (`Delivery.ready`).  The sender is read back through
`ReadTransactionByHash` when the loop handles the log, from the chain as it is then (`Delivery.senderOf`).

The table here is what `GetDeposit` reads, from an address to the public key and the amount.  The byte layout
of a row, the database transactions and their errors, and the log texts are left out.

* `eventLoop_eq_received`: the table after any run is the logs of the `NewLogsEvent`s the loop received,
  applied in the order it received them; a removed log and a dropped event change nothing.
* `eventLoop_keeps_abandoned_deposit`: a deposit the loop received stays in the table when a reorg abandons
  its block, while the logs of the canonical chain carry no deposit.
-/

namespace AmazeChain.Deposit

/-- A `types.Log` as the event loop reads it. -/
structure Log (Addr Hash : Type) where
  address : Addr
  topics : List Hash
  data : List UInt8
  txHash : Hash
  deriving DecidableEq, Repr

/-- The two events the loop subscribes to. -/
inductive LogsEvent (Addr Hash : Type) where
  | newLogs (logs : List (Log Addr Hash))
  | removedLogs (logs : List (Log Addr Hash))
  deriving DecidableEq, Repr

/-- The logs of a `NewLogsEvent`, and none of a `RemovedLogsEvent`. -/
def LogsEvent.newLogsOf {Addr Hash : Type} : LogsEvent Addr Hash → List (Log Addr Hash)
  | .newLogs logs => logs
  | .removedLogs _ => []

/-- A row of the deposit table: the public key and the amount. -/
structure Entry where
  publicKey : List UInt8
  amount : ℕ
  deriving DecidableEq, Repr

/-- The deposit table, as `GetDeposit` reads it. -/
abbrev Table (Addr : Type) := Addr → Option Entry

/-- What the loop reads besides the logs: the APos configuration's `DepositContract` (`none` without an APos
configuration), `Address.String()`, the two event signatures, `UnpackDepositLogData` (the public key, the
amount, below `2^256`, and the signature), and the BLS check of `handleDepositEvent` (`SignatureFromBytes`,
`PublicKeyFromBytes` and `Verify` over the amount's bytes) on the signature, the public key and the amount. -/
structure DepositEnv (Addr Hash : Type) where
  depositContract : Option String
  addressString : Addr → String
  depositEventSignature : Hash
  withdrawnSignature : Hash
  unpackDepositLogData : List UInt8 → Option (List UInt8 × ℕ × List UInt8)
  verify : List UInt8 → List UInt8 → ℕ → Bool

/-- One `GlobalEvent.Send` of an event to the loop: the event, whether the loop was waiting on its channel,
and the sender `ReadTransactionByHash` finds for a transaction hash when the loop handles the event. -/
structure Delivery (Addr Hash : Type) where
  event : LogsEvent Addr Hash
  ready : Bool
  senderOf : Hash → Option Addr

variable {Addr Hash : Type} [DecidableEq Addr] [DecidableEq Hash] (env : DepositEnv Addr Hash)

/-- `nil != APos && l.Address.String() == DepositContract`. -/
def DepositEnv.fromDepositContract (addr : Addr) : Bool :=
  match env.depositContract with
  | some depositContract => env.addressString addr == depositContract
  | none => false

/-- `handleDepositEvent`: an unpacked deposit whose signature verifies is put under the sender of its
transaction, when the transaction is found; the public key is stored as the bytes it was read from. -/
def handleDepositEvent (senderOf : Hash → Option Addr) (table : Table Addr) (txHash : Hash)
    (data : List UInt8) : Table Addr :=
  match env.unpackDepositLogData data with
  | none => table
  | some (pb, amount, sig) =>
    if env.verify sig pb amount then
      match senderOf txHash with
      | some sender => Function.update table sender (some ⟨pb, amount⟩)
      | none => table
    else table

/-- `handleWithdrawnEvent`: the deposit of the transaction's sender is deleted; the log's data is not read. -/
def handleWithdrawnEvent (senderOf : Hash → Option Addr) (table : Table Addr) (txHash : Hash) : Table Addr :=
  match senderOf txHash with
  | some sender => Function.update table sender none
  | none => table

/-- One log of a `NewLogsEvent`.  The trace line reads `Topics[0]` of every log of the deposit contract, so
a log of it with no topics panics. -/
def handleLog (senderOf : Hash → Option Addr) (table : Table Addr) (l : Log Addr Hash) : Option (Table Addr) :=
  if env.fromDepositContract l.address then
    match l.topics.head? with
    | none => none
    | some topic =>
      if topic = env.depositEventSignature then some (handleDepositEvent env senderOf table l.txHash l.data)
      else if topic = env.withdrawnSignature then some (handleWithdrawnEvent senderOf table l.txHash)
      else some table
  else some table

/-- The logs of a chain applied to a table in order, as the loop applies the logs of one event.  Over the
logs of the canonical blocks this is the table the deposits of the chain determine. -/
def applyLogs (senderOf : Hash → Option Addr) (table : Table Addr) (logs : List (Log Addr Hash)) :
    Option (Table Addr) :=
  logs.foldlM (handleLog env senderOf) table

/-- The loop on one event it receives. -/
def eventStep (senderOf : Hash → Option Addr) (table : Table Addr) : LogsEvent Addr Hash → Option (Table Addr)
  | .newLogs logs => applyLogs env senderOf table logs
  | .removedLogs _ => some table

/-- `eventLoop` over the events sent to it, from a table. -/
def eventLoop (table : Table Addr) (ds : List (Delivery Addr Hash)) : Option (Table Addr) :=
  ds.foldlM (fun table d => if d.ready then eventStep env d.senderOf table d.event else some table) table

/-- What the loop receives of a send: the logs of a `NewLogsEvent` it was waiting for, with the chain it
reads them against. -/
def Delivery.received (d : Delivery Addr Hash) : Option ((Hash → Option Addr) × List (Log Addr Hash)) :=
  if d.ready then
    match d.event with
    | .newLogs logs => some (d.senderOf, logs)
    | .removedLogs _ => none
  else none

/-! ### One step -/

@[simp]
theorem eventStep_removedLogs (senderOf : Hash → Option Addr) (table : Table Addr) (logs : List (Log Addr Hash)) :
    eventStep env senderOf table (.removedLogs logs) = some table := rfl

@[simp]
theorem applyLogs_nil (senderOf : Hash → Option Addr) (table : Table Addr) :
    applyLogs env senderOf table [] = some table := rfl

theorem applyLogs_cons (senderOf : Hash → Option Addr) (table : Table Addr) (l : Log Addr Hash)
    (logs : List (Log Addr Hash)) :
    applyLogs env senderOf table (l :: logs) = (handleLog env senderOf table l).bind
      (fun table => applyLogs env senderOf table logs) := rfl

/-- A log of another contract leaves the table as it is. -/
theorem handleLog_of_foreign {senderOf : Hash → Option Addr} (table : Table Addr) {l : Log Addr Hash}
    (hforeign : env.fromDepositContract l.address = false) : handleLog env senderOf table l = some table := by
  simp [handleLog, hforeign]

/-- A deposit of the contract with a verified signature, whose transaction's sender is found, is put under
that sender. -/
theorem handleLog_deposit {senderOf : Hash → Option Addr} (table : Table Addr) {l : Log Addr Hash}
    {pb sig : List UInt8} {amount : ℕ} {sender : Addr} (hcontract : env.fromDepositContract l.address = true)
    (htopic : l.topics.head? = some env.depositEventSignature)
    (hunpack : env.unpackDepositLogData l.data = some (pb, amount, sig)) (hverify : env.verify sig pb amount = true)
    (hsender : senderOf l.txHash = some sender) :
    handleLog env senderOf table l = some (Function.update table sender (some ⟨pb, amount⟩)) := by
  simp [handleLog, hcontract, htopic, handleDepositEvent, hunpack, hverify, hsender]

/-- Logs none of which is of the deposit contract leave the table as it is. -/
theorem applyLogs_of_foreign {senderOf : Hash → Option Addr} {logs : List (Log Addr Hash)}
    (hforeign : ∀ l ∈ logs, env.fromDepositContract l.address = false) (table : Table Addr) :
    applyLogs env senderOf table logs = some table := by
  induction logs with
  | nil => rfl
  | cons l logs ih =>
    rw [applyLogs_cons, handleLog_of_foreign env table (hforeign l (by simp))]
    exact ih (fun l' hl' => hforeign l' (by simp [hl']))

/-! ### Runs -/

@[simp]
theorem eventLoop_nil (table : Table Addr) : eventLoop env table [] = some table := rfl

theorem eventLoop_cons (table : Table Addr) (d : Delivery Addr Hash) (ds : List (Delivery Addr Hash)) :
    eventLoop env table (d :: ds) =
      (if d.ready then eventStep env d.senderOf table d.event else some table).bind
        (fun table => eventLoop env table ds) := rfl

/-- The loop on one send is the application of what it received of it. -/
theorem eventStep_eq_received (table : Table Addr) (d : Delivery Addr Hash) :
    (if d.ready then eventStep env d.senderOf table d.event else some table) =
      match d.received with
      | some (senderOf, logs) => applyLogs env senderOf table logs
      | none => some table := by
  rcases d with ⟨event | event, ready, senderOf⟩ <;> cases ready <;> rfl

/-- The table after any run of the loop is the logs of the `NewLogsEvent`s it received, applied in the
order it received them, each against the chain as it was when the loop handled it.  A `RemovedLogsEvent`
and an event sent while the loop was busy change nothing. -/
theorem eventLoop_eq_received (table : Table Addr) (ds : List (Delivery Addr Hash)) :
    eventLoop env table ds =
      (ds.filterMap Delivery.received).foldlM (fun table r => applyLogs env r.1 table r.2) table := by
  -- induction on the run, from any table: each send is either received, and applied, or not seen
  induction ds generalizing table with
  | nil => rfl
  | cons d ds ih =>
    rw [eventLoop_cons, eventStep_eq_received]
    cases hd : d.received with
    | none => simp [hd, ih]
    | some r =>
      obtain ⟨senderOf, logs⟩ := r
      simp only [List.filterMap_cons, hd, List.foldlM_cons]
      cases applyLogs env senderOf table logs with
      | none => rfl
      | some table' => exact ih table'

/-- A run in which the loop receives no log of the deposit contract leaves the table as it is. -/
theorem eventLoop_of_foreign {ds : List (Delivery Addr Hash)}
    (hforeign : ∀ d ∈ ds, ∀ l ∈ d.event.newLogsOf, env.fromDepositContract l.address = false)
    (table : Table Addr) : eventLoop env table ds = some table := by
  induction ds with
  | nil => rfl
  | cons d ds ih =>
    have hd : (if d.ready then eventStep env d.senderOf table d.event else some table) = some table := by
      -- only a `NewLogsEvent` the loop received applies logs, and none of them is of the contract
      rcases d with ⟨logs | logs, ready, senderOf⟩ <;> cases ready
      case newLogs.true =>
        exact applyLogs_of_foreign env (hforeign _ List.mem_cons_self) table
      all_goals rfl
    rw [eventLoop_cons, hd]
    exact ih (fun d' hd' => hforeign d' (by simp [hd']))

/-- A deposit stays in the table when a reorg abandons its block.  The loop received the `NewLogsEvent` of
the block, with its deposit log `l`, while the block was canonical; a reorg then made a chain without the
block canonical, whose logs carry nothing of the deposit contract.  No event the loop receives afterwards
undoes the deposit (the reorg sends no `RemovedLogsEvent`, and one would only be logged), so the table keeps
the deposit of the abandoned block, unlike the table the canonical logs determine. -/
theorem eventLoop_keeps_abandoned_deposit (table : Table Addr) {l : Log Addr Hash} {pb sig : List UInt8}
    {amount : ℕ} {sender : Addr} (hcontract : env.fromDepositContract l.address = true)
    (htopic : l.topics.head? = some env.depositEventSignature)
    (hunpack : env.unpackDepositLogData l.data = some (pb, amount, sig)) (hverify : env.verify sig pb amount = true)
    {senderOf : Hash → Option Addr} (hsender : senderOf l.txHash = some sender) (hfresh : table sender = none)
    {rest : List (Delivery Addr Hash)}
    (hrest : ∀ d ∈ rest, ∀ l' ∈ d.event.newLogsOf, env.fromDepositContract l'.address = false)
    {canonicalLogs : List (Log Addr Hash)}
    (hcanonical : ∀ l' ∈ canonicalLogs, env.fromDepositContract l'.address = false)
    (canonicalSenderOf : Hash → Option Addr) :
    eventLoop env table (⟨.newLogs [l], true, senderOf⟩ :: rest) =
        some (Function.update table sender (some ⟨pb, amount⟩)) ∧
      eventLoop env table (⟨.newLogs [l], true, senderOf⟩ :: rest) ≠
        applyLogs env canonicalSenderOf table canonicalLogs := by
  have hrun : eventLoop env table (⟨.newLogs [l], true, senderOf⟩ :: rest) =
      some (Function.update table sender (some ⟨pb, amount⟩)) := by
    rw [eventLoop_cons]
    simp only [if_true, eventStep, applyLogs_cons,
      handleLog_deposit env table hcontract htopic hunpack hverify hsender, Option.bind_some, applyLogs_nil]
    exact eventLoop_of_foreign env hrest _
  refine ⟨hrun, ?_⟩
  rw [hrun, applyLogs_of_foreign env hcanonical table]
  intro heq
  have hsame := congrFun (Option.some.inj heq) sender
  simp [hfresh] at hsame

/-- A deposit contract whose address prints as the configured one only at address 1, with the event
signatures 7 and 8, and one deposit log's data that unpacks to a signature that verifies. -/
def exampleEnv : DepositEnv ℕ ℕ where
  depositContract := some "deposit"
  addressString := fun a => if a = 1 then "deposit" else "other"
  depositEventSignature := 7
  withdrawnSignature := 8
  unpackDepositLogData := fun data => if data = [1] then some ([2], 10, [3]) else none
  verify := fun sig pb amount => sig == [3] && pb == [2] && amount == 10

/-- Block 1 of a branch carries the deposit of transaction 5, sent by address 3, and the loop receives its
logs; a heavier block 1 of another branch, with a log of another contract only, becomes canonical, and the
transaction is no longer found.  The table keeps the deposit of address 3. -/
theorem eventLoop_keeps_abandoned_deposit_shorterBranch :
    eventLoop exampleEnv (fun _ => none)
        [⟨.newLogs [⟨1, [7], [1], 5⟩], true, fun h => if h = 5 then some 3 else none⟩,
          ⟨.newLogs [⟨2, [9], [], 6⟩], true, fun h => if h = 6 then some 4 else none⟩] =
        some (Function.update (fun _ => none) 3 (some ⟨[2], 10⟩)) ∧
      eventLoop exampleEnv (fun _ => none)
          [⟨.newLogs [⟨1, [7], [1], 5⟩], true, fun h => if h = 5 then some 3 else none⟩,
            ⟨.newLogs [⟨2, [9], [], 6⟩], true, fun h => if h = 6 then some 4 else none⟩] ≠
        applyLogs exampleEnv (fun h => if h = 6 then some 4 else none) (fun _ => none) [⟨2, [9], [], 6⟩] := by
  refine eventLoop_keeps_abandoned_deposit exampleEnv (fun _ => none) ?_ ?_
    (show exampleEnv.unpackDepositLogData [1] = some ([2], 10, [3]) from rfl) ?_ ?_ ?_ ?_ ?_ _
  all_goals decide

end AmazeChain.Deposit
