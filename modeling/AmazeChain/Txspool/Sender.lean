import AmazeChain.Txspool.Calls

/-!
# The sender of a transaction

A transaction carries its sender in the field `From`, outside the hashed part and beside the signature
values `V`, `R`, `S` of it.  The address the signature recovers to, `Sender(MakeSigner(config, number), tx)`,
is a function of the hashed part alone; the model takes it as a parameter `recover`, for any signature
scheme.  Nothing on the way into the pool calls it: `addTxs` asks `validateSender`, which accepts every
transaction, and `validateTx` reads `From` only to look up the account's nonce and balance.  `AsMessage`
executes the transaction as `From`.
-/

namespace AmazeChain.Txspool

/-- The transfer `exampleTx`, signed by account 1, with its `From` field changed to account 2. -/
def forgedTx : Transaction ℕ ℕ := { exampleTx with sender := 2 }

/-- `AddRemotes` of the forged transfer on a new pool: the errors, the accounts to promote and the pool. -/
def forgedAddRemotes : List (Option TxPoolError) × List ℕ × TxsPool Unit ℕ ℕ :=
  (newTxsPool exampleEnv exampleGenesis exampleState 0).addRemotes exampleEnv [forgedTx] 0

/-- Whatever the signature recovers to, the pool takes in a transaction as its `From` field says: the
forged transfer of account 1's signature passes `AddRemotes` from a new pool without an error, is queued
for account 2, is promoted into account 2's pending list by the reorganisation `AddRemotes` requests, and
executes with account 2 as its sender. -/
theorem addRemotes_accepts_forged_sender (recover : TxData ℕ ℕ → Option ℕ)
    (hsigned : recover exampleTx.inner = some 1) :
    recover forgedTx.inner ≠ some forgedTx.sender ∧ forgedAddRemotes.1 = [none] ∧
      forgedTx ∈ listAt forgedAddRemotes.2.2.queue 2 ∧
      forgedTx ∈ listAt (forgedAddRemotes.2.2.runReorg exampleEnv none (some forgedAddRemotes.2.1) 0).2.pending 2 ∧
      ∀ baseFee, (forgedTx.asMessage baseFee).sender = 2 := by
  -- the signature is over the hashed part, which `forgedTx` keeps
  have hrec : recover forgedTx.inner = some 1 := hsigned
  refine ⟨by rw [hrec]; decide, by decide, by decide, by decide, fun _ => rfl⟩

theorem addRemotes_accepts_forged_sender_recover_one :
    (fun _ => some 1 : TxData ℕ ℕ → Option ℕ) exampleTx.inner = some 1 ∧
      (fun _ => some 1 : TxData ℕ ℕ → Option ℕ) forgedTx.inner ≠ some forgedTx.sender ∧
      forgedAddRemotes.1 = [none] ∧ forgedTx ∈ listAt forgedAddRemotes.2.2.queue 2 ∧
      forgedTx ∈ listAt (forgedAddRemotes.2.2.runReorg exampleEnv none (some forgedAddRemotes.2.1) 0).2.pending 2 ∧
      ∀ baseFee, (forgedTx.asMessage baseFee).sender = 2 :=
  ⟨rfl, addRemotes_accepts_forged_sender (fun _ => some 1) rfl⟩

end AmazeChain.Txspool
