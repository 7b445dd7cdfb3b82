import AmazeChain.APos.Reward
import AmazeChain.Common.Hashing
import AmazeChain.Lib.ExceptFold

/-!
# The verifiers of a block

After Beijing a block carries in its body the verifiers that signed its state root, and in its header
their aggregate BLS signature; `buildRewards` pays the verifiers the bodies list.  `SignMerge`
(`internal/api/agg_sign.go`) collects the signatures of the block's number that reach the signer, one per
address, and `APos.Seal` (`internal/consensus/apos/apos.go`) puts their aggregate and their list into the
block.  `BlockValidator.ValidateBody` (`internal/block_validator.go`) checks the body of a block from a peer.

The three checks that tie the list to the signature, `AggSign.Check` in `SignMerge` and
`FastAggregateVerify` in `Seal` and in `ValidateBody`, each sit behind `if false && ...`, kept here as the
source has them.  So `ValidateBody` decides a block by its header and transactions alone once the public
keys of the list decode (`validateBody_withVerifiers`), and the seal hash covers neither the header's
signature nor the body: a block with the same header and another list, of accounts that did not sign, is
accepted as well, and the bodies it leaves in the database redirect the rewards of the epoch.

The BLS scheme is a parameter (`Bls`): the decoding of keys and signatures, `Verify`,
`FastAggregateVerify` and the aggregation.  The header keeps the fields these functions read; the body
its transactions and its verifiers.

The one check of the body that is made is the transaction root: an accepted block has `DeriveSha` of its
transactions as its `TxHash` (`validateBody_txHash`).  With the node's `DeriveSha` (`Common.Hashing`) and a
Keccak without collisions, a body accepted under the header `NewBlockFromReceipt` gave the miner's block
carries the miner's transactions, in their order (`txHash_binds_transactions`).
-/

namespace AmazeChain.Internal.BlockValidator

open Txspool (u64)

/-- The BLS operations the node calls: decoding, `Verify`, `FastAggregateVerify`, and
`AggregateSignatures` followed by `Marshal`. -/
structure Bls (PkBytes SigBytes PubKey Sig Hash : Type) where
  publicKeyFromBytes : PkBytes → Option PubKey
  signatureFromBytes : SigBytes → Option Sig
  verify : Sig → PubKey → Hash → Bool
  fastAggregateVerify : Sig → List PubKey → Hash → Bool
  aggregate : List Sig → SigBytes

/-- The fields of a header these functions read. -/
structure Header (Hash SigBytes : Type) where
  parentHash : Hash
  root : Hash
  txHash : Hash
  number : ℕ
  signature : SigBytes

/-- `block.Verify`: a verifier's address and public key. -/
structure Verify (Addr PkBytes : Type) where
  address : Addr
  publicKey : PkBytes

/-- The fields of a body these functions read. -/
structure Body (Tx Addr PkBytes : Type) where
  txs : List Tx
  verifiers : List (Verify Addr PkBytes)

structure Block (Tx Addr Hash PkBytes SigBytes : Type) where
  header : Header Hash SigBytes
  body : Body Tx Addr PkBytes

/-- The block with another verifier list in its body. -/
def Block.withVerifiers {Tx Addr Hash PkBytes SigBytes : Type} (b : Block Tx Addr Hash PkBytes SigBytes)
    (verifiers : List (Verify Addr PkBytes)) : Block Tx Addr Hash PkBytes SigBytes :=
  { b with body := { b.body with verifiers } }

/-- What `ValidateBody` reads of the chain: the fork, the blocks it has, `DeriveSha` of the transactions
and the hash of a header. -/
structure ChainView (Tx Hash SigBytes : Type) where
  isBeijing : ℕ → Bool
  hasBlockAndState : Hash → ℕ → Bool
  hasBlock : Hash → ℕ → Bool
  deriveSha : List Tx → Hash
  headerHash : Header Hash SigBytes → Hash

/-- The errors of these functions; a failed decoding returns the error of the BLS library. -/
inductive BlockError (Hash : Type) where
  | publicKey
  | signature
  | notEnoughSign
  | aggSignature
  | knownBlock
  | txRootMismatch (hash txHash : Hash)
  | unknownAncestor
  | prunedAncestor

/-- The texts of the errors the node defines. -/
def BlockError.message {Hash : Type} : BlockError Hash → Option String
  | .notEnoughSign => some "not enough sign"
  | .aggSignature => some "AggSignature verify falied"
  | .knownBlock => some "block already known"
  | .txRootMismatch .. => some "transaction root hash mismatch"
  | .unknownAncestor => some "unknown ancestor"
  | .prunedAncestor => some "pruned ancestor"
  | _ => none

/-- `AggSign`: a verifier's signature of a block's state root, as it arrives on `sigChannel`. -/
structure AggSign (Addr Hash PkBytes SigBytes : Type) where
  number : ℕ
  stateRoot : Hash
  sign : SigBytes
  address : Addr
  publicKey : PkBytes

variable {Addr Hash PkBytes SigBytes PubKey Sig Tx : Type} [DecidableEq Hash]
variable (bls : Bls PkBytes SigBytes PubKey Sig Hash)

/-- The decoding of the verifiers' public keys that `Seal` and `ValidateBody` start with. -/
def publicKeys : List (Verify Addr PkBytes) → Except (BlockError Hash) (List PubKey)
  | [] => .ok []
  | p :: ps =>
    match bls.publicKeyFromBytes p.publicKey with
    | none => .error .publicKey
    | some key => (publicKeys ps).map (key :: ·)

/-- `bls.SignatureFromBytes`. -/
def signatureFromBytes (sign : SigBytes) : Except (BlockError Hash) Sig :=
  match bls.signatureFromBytes sign with
  | none => .error .signature
  | some sig => .ok sig

/-- `BlockValidator.ValidateBody`. -/
def validateBody (chain : ChainView Tx Hash SigBytes) (b : Block Tx Addr Hash PkBytes SigBytes) :
    Except (BlockError Hash) Unit := do
  let ss ← publicKeys bls b.body.verifiers
  if chain.isBeijing b.header.number then
    let sig ← signatureFromBytes bls b.header.signature
    if (false && !bls.fastAggregateVerify sig ss b.header.root) = true then throw .aggSignature
  if chain.hasBlockAndState (chain.headerHash b.header) b.header.number then throw .knownBlock
  let hash := chain.deriveSha b.body.txs
  if hash ≠ b.header.txHash then throw (.txRootMismatch hash b.header.txHash)
  -- `b.Number64().Uint64() - 1` in `uint64`
  let parentNumber := (b.header.number + u64 - 1) % u64
  if !chain.hasBlockAndState b.header.parentHash parentNumber then
    if !chain.hasBlock b.header.parentHash parentNumber then throw .unknownAncestor
    throw .prunedAncestor

/-! ### What `ValidateBody` reads of the body -/

omit [DecidableEq Hash] in
theorem publicKeys_ok : ∀ {verifiers : List (Verify Addr PkBytes)},
    (∀ v ∈ verifiers, (bls.publicKeyFromBytes v.publicKey).isSome) →
      ∃ keys, (publicKeys bls verifiers : Except (BlockError Hash) (List PubKey)) = .ok keys
  | [], _ => ⟨[], rfl⟩
  | p :: ps, h => by
    obtain ⟨key, hkey⟩ := Option.isSome_iff_exists.1 (h p List.mem_cons_self)
    obtain ⟨keys, hkeys⟩ := publicKeys_ok fun v hv => h v (List.mem_cons_of_mem _ hv)
    exact ⟨key :: keys, by simp [publicKeys, hkey, hkeys, Except.map]⟩

variable (chain : ChainView Tx Hash SigBytes)

/-- Once the keys decode, `ValidateBody` answers from the decoded keys only through the check behind
`false &&`: any two lists of decodable keys give the same answer. -/
theorem validateBody_of_publicKeys {b : Block Tx Addr Hash PkBytes SigBytes} {keys : List PubKey}
    (hkeys : (publicKeys bls b.body.verifiers : Except (BlockError Hash) (List PubKey)) = .ok keys) :
    validateBody bls chain b = validateBody bls chain (b.withVerifiers []) := by
  unfold validateBody
  rw [hkeys]
  rfl

/-- The answer of `ValidateBody` does not depend on the verifier list, once its keys decode, nor on
`FastAggregateVerify`: a block with the header of an accepted one and any list of decodable keys, signed
or not, listed twice or not, of depositors or not, is accepted. -/
theorem validateBody_withVerifiers (b : Block Tx Addr Hash PkBytes SigBytes) (verifiers : List (Verify Addr PkBytes))
    (hb : ∀ v ∈ b.body.verifiers, (bls.publicKeyFromBytes v.publicKey).isSome)
    (hverifiers : ∀ v ∈ verifiers, (bls.publicKeyFromBytes v.publicKey).isSome)
    (fastAggregateVerify : Sig → List PubKey → Hash → Bool) :
    validateBody { bls with fastAggregateVerify } chain (b.withVerifiers verifiers) = validateBody bls chain b := by
  obtain ⟨keys, hkeys⟩ := publicKeys_ok bls hb
  obtain ⟨keys', hkeys'⟩ := publicKeys_ok { bls with fastAggregateVerify } hverifiers
  rw [validateBody_of_publicKeys bls chain hkeys, validateBody_of_publicKeys _ chain hkeys']
  rfl

/-- Whatever else `ValidateBody` decides, an accepted block has the root of its transactions in its header:
every way past the root check but the one through it ends in an error. -/
theorem validateBody_txHash {b : Block Tx Addr Hash PkBytes SigBytes} (h : validateBody bls chain b = .ok ()) :
    chain.deriveSha b.body.txs = b.header.txHash := by
  -- the known-block check, then the root check, with the rest of the checks behind it
  have hroot {known sameRoot : Prop} [Decidable known] [Decidable sameRoot] {rest : Except (BlockError Hash) Unit}
      {e e' : BlockError Hash} (h : (if known then .error e else if sameRoot then rest else .error e') = .ok ()) :
      sameRoot := by
    split at h
    · cases h
    · split at h
      · assumption
      · cases h
  unfold validateBody at h
  cases hkeys : (publicKeys bls b.body.verifiers : Except (BlockError Hash) (List PubKey)) with
  | error e => simp [hkeys] at h
  | ok ss =>
    simp only [hkeys, ExceptFold.ok_bind] at h
    split at h
    · cases hsig : (signatureFromBytes bls b.header.signature : Except (BlockError Hash) Sig) with
      | error e => simp [hsig] at h
      | ok sig =>
        simp [hsig] at h
        exact hroot h
    · simp at h
      exact hroot h

/-! ### The seal -/

variable [DecidableEq Addr]

/-- `AggSign.Check`: the signature is of this root, and both it and the key decode and verify. -/
def AggSign.check (s : AggSign Addr Hash PkBytes SigBytes) (root : Hash) : Bool :=
  decide (s.stateRoot = root) &&
    match bls.signatureFromBytes s.sign, bls.publicKeyFromBytes s.publicKey with
    | some sig, some pub => bls.verify sig pub s.stateRoot
    | _, _ => false

/-- The loop of `SignMerge` over the signatures that arrive before the deadline: it skips another number
and an address it has taken, the check is behind `false &&`, and a signature that does not decode ends it
with that error.  The signatures, the verifiers and the addresses taken. -/
def signMergeLoop (header : Header Hash SigBytes) :
    List (AggSign Addr Hash PkBytes SigBytes) → List Sig → List (Verify Addr PkBytes) → List Addr →
      Except (BlockError Hash) (List Sig × List (Verify Addr PkBytes))
  | [], sigs, verifiers, _ => .ok (sigs, verifiers)
  | s :: rest, sigs, verifiers, uniq =>
    if s.number ≠ header.number then signMergeLoop header rest sigs verifiers uniq
    else if s.address ∈ uniq then signMergeLoop header rest sigs verifiers uniq
    else if (false && !s.check bls header.root) = true then signMergeLoop header rest sigs verifiers uniq
    else match bls.signatureFromBytes s.sign with
      | none => .error .signature
      | some sig =>
        signMergeLoop header rest (sigs ++ [sig]) (verifiers ++ [⟨s.address, s.publicKey⟩]) (s.address :: uniq)

/-- `SignMerge`: at least one signature, and their aggregate with the verifiers. -/
def signMerge (header : Header Hash SigBytes) (received : List (AggSign Addr Hash PkBytes SigBytes)) :
    Except (BlockError Hash) (SigBytes × List (Verify Addr PkBytes)) := do
  let (aggrSigns, verifiers) ← signMergeLoop bls header received [] [] []
  if aggrSigns.length < 1 then throw .notEnoughSign
  pure (bls.aggregate aggrSigns, verifiers)

/-- `APos.Seal` after Beijing: the aggregate signature goes into the header and the verifiers
into the body, with `FastAggregateVerify` behind `false &&`. -/
def sealBlock (b : Block Tx Addr Hash PkBytes SigBytes) (received : List (AggSign Addr Hash PkBytes SigBytes)) :
    Except (BlockError Hash) (Block Tx Addr Hash PkBytes SigBytes) := do
  let (aggSign, verifiers) ← signMerge bls b.header received
  let ss ← publicKeys bls verifiers
  let sig ← signatureFromBytes bls aggSign
  if (false && !bls.fastAggregateVerify sig ss b.header.root) = true then throw .aggSignature
  pure ⟨{ b.header with signature := aggSign }, { b.body with verifiers }⟩

/-- The loop of `SignMerge` takes each address once, and only from signatures of the block's number: the
taken addresses are those of the verifiers, without repetition, and every verifier is the sender of a
signature of that number. -/
def MergeInv (header : Header Hash SigBytes) (received : List (AggSign Addr Hash PkBytes SigBytes))
    (verifiers : List (Verify Addr PkBytes)) (uniq : List Addr) : Prop :=
  (verifiers.map Verify.address).Nodup ∧ (∀ a, a ∈ uniq ↔ a ∈ verifiers.map Verify.address) ∧
    ∀ v ∈ verifiers, ∃ s ∈ received, s.number = header.number ∧ v = ⟨s.address, s.publicKey⟩

omit [DecidableEq Hash] [DecidableEq Addr] in
theorem MergeInv.take {header : Header Hash SigBytes} {received : List (AggSign Addr Hash PkBytes SigBytes)}
    {verifiers : List (Verify Addr PkBytes)} {uniq : List Addr} (h : MergeInv header received verifiers uniq)
    {s : AggSign Addr Hash PkBytes SigBytes} (hs : s ∈ received) (hnum : s.number = header.number)
    (hnew : s.address ∉ uniq) :
    MergeInv header received (verifiers ++ [⟨s.address, s.publicKey⟩]) (s.address :: uniq) := by
  obtain ⟨hnodup, huniq, hfrom⟩ := h
  refine ⟨?_, fun a => ?_, fun v hv => ?_⟩
  · rw [List.map_append, List.nodup_append]
    refine ⟨hnodup, List.nodup_singleton _, fun a ha b hb => ?_⟩
    rw [List.map_singleton, List.mem_singleton] at hb
    rintro rfl
    rw [hb] at ha
    exact hnew ((huniq _).2 ha)
  · simp [huniq a, or_comm]
  · rcases List.mem_append.1 hv with hv | hv
    · exact hfrom v hv
    · rw [List.mem_singleton] at hv
      exact ⟨s, hs, hnum, hv⟩

/-- What the loop of `SignMerge` returns: verifiers of distinct addresses, each the sender of a signature of
the block's number, that extend the ones it starts from, and among them every address that sent one of
that number, whatever `Verify` says of it. -/
theorem signMergeLoop_spec (header : Header Hash SigBytes) (all : List (AggSign Addr Hash PkBytes SigBytes)) :
    ∀ (received : List (AggSign Addr Hash PkBytes SigBytes)) {sigs : List Sig} {verifiers : List (Verify Addr PkBytes)}
      {uniq : List Addr} {sigs' : List Sig} {verifiers' : List (Verify Addr PkBytes)},
      (∀ s ∈ received, s ∈ all) → MergeInv header all verifiers uniq →
      signMergeLoop bls header received sigs verifiers uniq = .ok (sigs', verifiers') →
      (∃ uniq', MergeInv header all verifiers' uniq') ∧ verifiers <+: verifiers' ∧
        ∀ s ∈ received, s.number = header.number → s.address ∈ verifiers'.map Verify.address
  | [], _, _, uniq, _, _, _, hinv, h => by
    cases h
    exact ⟨⟨uniq, hinv⟩, List.prefix_refl _, fun _ hs => absurd hs List.not_mem_nil⟩
  | s :: rest, sigs, verifiers, uniq, sigs', verifiers', hall, hinv, h => by
    have hrest : ∀ s ∈ rest, s ∈ all := fun s' hs' => hall s' (List.mem_cons_of_mem _ hs')
    unfold signMergeLoop at h
    split_ifs at h with hnum huniq hfalse
    · -- another number: skipped
      obtain ⟨hinv', hpre, hmem⟩ := signMergeLoop_spec header all rest hrest hinv h
      refine ⟨hinv', hpre, fun s' hs' hnum' => ?_⟩
      rcases List.mem_cons.1 hs' with rfl | hs'
      · exact absurd hnum' hnum
      · exact hmem s' hs' hnum'
    · -- an address already taken: it is among the verifiers, which the rest extends
      obtain ⟨hinv', hpre, hmem⟩ := signMergeLoop_spec header all rest hrest hinv h
      refine ⟨hinv', hpre, fun s' hs' hnum' => ?_⟩
      rcases List.mem_cons.1 hs' with rfl | hs'
      · exact List.map_subset _ hpre.subset ((hinv.2.1 _).1 huniq)
      · exact hmem s' hs' hnum'
    · simp at hfalse
    · split at h
      · cases h
      · -- taken, whether its check passes or not
        have hnum' : s.number = header.number := not_not.1 hnum
        obtain ⟨hinv', hpre, hmem⟩ := signMergeLoop_spec header all rest hrest
          (hinv.take (hall s List.mem_cons_self) hnum' huniq) h
        refine ⟨hinv', (List.prefix_append _ _).trans hpre, fun s' hs' hnum'' => ?_⟩
        rcases List.mem_cons.1 hs' with rfl | hs'
        · exact List.map_subset _ hpre.subset (List.mem_map_of_mem (List.mem_append_right _ (List.mem_singleton_self _)))
        · exact hmem s' hs' hnum''

/-- `SignMerge` lists distinct addresses, each the sender of a signature of the block's number, and every
address that sent one: it checks no signature. -/
theorem signMerge_spec {header : Header Hash SigBytes} {received : List (AggSign Addr Hash PkBytes SigBytes)}
    {aggSign : SigBytes} {verifiers : List (Verify Addr PkBytes)}
    (h : signMerge bls header received = .ok (aggSign, verifiers)) :
    (verifiers.map Verify.address).Nodup ∧
      (∀ v ∈ verifiers, ∃ s ∈ received, s.number = header.number ∧ v = ⟨s.address, s.publicKey⟩) ∧
      ∀ s ∈ received, s.number = header.number → s.address ∈ verifiers.map Verify.address := by
  unfold signMerge at h
  cases hloop : signMergeLoop bls header received [] [] [] with
  | error e => rw [hloop] at h; cases h
  | ok r =>
    obtain ⟨sigs, verifiers'⟩ := r
    rw [hloop] at h
    -- past the count of signatures, the verifiers are the loop's
    have hv : verifiers' = verifiers := by
      by_cases hlen : sigs.length < 1
      · have hnil : sigs = [] := List.eq_nil_of_length_eq_zero (by omega)
        simp [hnil] at h
      · simp only [ExceptFold.ok_bind, hlen, if_false] at h
        simp only [ExceptFold.pure_eq_ok, Except.ok.injEq, Prod.mk.injEq] at h
        exact h.2
    subst hv
    have hinv₀ : MergeInv header received ([] : List (Verify Addr PkBytes)) [] :=
      ⟨List.nodup_nil, fun _ => Iff.rfl, fun _ hv => absurd hv List.not_mem_nil⟩
    obtain ⟨⟨_, hinv⟩, -, hmem⟩ := signMergeLoop_spec bls header received received (fun _ hs => hs) hinv₀ hloop
    exact ⟨hinv.1, hinv.2.2, hmem⟩

/-- `Seal` puts the aggregate into the header and the list of `SignMerge` into the body. -/
theorem sealBlock_spec {b b' : Block Tx Addr Hash PkBytes SigBytes} {received : List (AggSign Addr Hash PkBytes SigBytes)}
    (h : sealBlock bls b received = .ok b') :
    ∃ aggSign, signMerge bls b.header received = .ok (aggSign, b'.body.verifiers) ∧
      b'.header = { b.header with signature := aggSign } ∧ b'.body.txs = b.body.txs := by
  unfold sealBlock at h
  cases hmerge : signMerge bls b.header received with
  | error e => rw [hmerge] at h; cases h
  | ok r =>
    obtain ⟨aggSign, verifiers⟩ := r
    rw [hmerge] at h
    simp only [ExceptFold.ok_bind] at h
    cases hkeys : (publicKeys bls verifiers : Except (BlockError Hash) (List PubKey)) with
    | error e => rw [hkeys] at h; cases h
    | ok keys =>
      rw [hkeys] at h
      cases hsig : (signatureFromBytes bls aggSign : Except (BlockError Hash) Sig) with
      | error e => rw [hsig] at h; cases h
      | ok sig =>
        rw [hsig] at h
        simp only [ExceptFold.ok_bind, Bool.false_and, Bool.false_eq_true, if_false] at h
        cases h
        exact ⟨aggSign, rfl, rfl, rfl⟩

/-- A sealed block lists every address that sent a signature of its number, whatever `Verify` says of the
signature, and each once. -/
theorem sealBlock_lists_unchecked {b b' : Block Tx Addr Hash PkBytes SigBytes}
    {received : List (AggSign Addr Hash PkBytes SigBytes)} (h : sealBlock bls b received = .ok b') :
    (b'.body.verifiers.map Verify.address).Nodup ∧
      ∀ s ∈ received, s.number = b.header.number → s.address ∈ b'.body.verifiers.map Verify.address := by
  obtain ⟨aggSign, hmerge, -, -⟩ := sealBlock_spec bls h
  obtain ⟨hnodup, -, hmem⟩ := signMerge_spec bls hmerge
  exact ⟨hnodup, hmem⟩

/-! ### From an accepted block to the rewards -/

/-- The tables `buildRewards` reads after a block is written under a hash as the canonical block of its
number (`rawdb.WriteBlock`, `WriteCanonicalHash`): its header, and the addresses its body lists. -/
def writeCanonical (db : APos.RewardDB Addr Hash) (hash : Hash) (b : Block Tx Addr Hash PkBytes SigBytes) :
    APos.RewardDB Addr Hash :=
  { db with
    canonicalHash := Function.update db.canonicalHash b.header.number hash
    hasHeader := fun n h => decide (n = b.header.number ∧ h = hash) || db.hasHeader n h
    verifiers := fun n h =>
      if n = b.header.number ∧ h = hash then some (b.body.verifiers.map Verify.address) else db.verifiers n h }

omit [DecidableEq Addr] in
/-- Two blocks of one header written under one hash differ, for `buildRewards`, only in the addresses
listed at that number. -/
theorem writeCanonical_withVerifiers (db : APos.RewardDB Addr Hash) (hash : Hash)
    (b : Block Tx Addr Hash PkBytes SigBytes) (verifiers : List (Verify Addr PkBytes)) :
    writeCanonical db hash (b.withVerifiers verifiers) =
      { writeCanonical db hash b with
        verifiers := fun n h =>
          if n = b.header.number ∧ h = hash then some (verifiers.map Verify.address) else db.verifiers n h } :=
  rfl

/-! ### A redirected epoch -/

/-- A scheme where every key and signature decodes and only the list `[1]` verifies. -/
def exampleBls : Bls ℕ ℕ ℕ ℕ ℕ where
  publicKeyFromBytes := some
  signatureFromBytes := some
  verify := fun sig key _ => decide (sig = key)
  fastAggregateVerify := fun _ keys _ => decide (keys = [1])
  aggregate := List.sum

/-- A chain after Beijing that holds the parent `0` of the block, and not the block. -/
def exampleChain : ChainView ℕ ℕ ℕ where
  isBeijing := fun _ => true
  hasBlockAndState := fun hash _ => decide (hash = 0)
  hasBlock := fun _ _ => true
  deriveSha := fun _ => 0
  headerHash := fun _ => 5

/-- Block 1 of state root `9`, signed by verifier `1` alone. -/
def signedBlock : Block ℕ ℕ ℕ ℕ ℕ := ⟨⟨0, 9, 0, 1, 1⟩, ⟨[], [⟨1, 1⟩]⟩⟩

/-- Two depositors of ten AMT, `1` and `2`, and no block yet. -/
def exampleRewardDB : APos.RewardDB ℕ ℕ where
  canonicalHash := fun _ => 0
  hasHeader := fun _ _ => false
  verifiers := fun _ _ => none
  deposits := fun addr => if addr = 1 ∨ addr = 2 then some (10 * APos.amt) else none
  unpaid := fun _ => 0
  epochPaid := fun _ => none

/-- The block of verifier `1`'s signature, and the same header listing verifier `2` twice, who did not
sign: both are accepted, and the epoch of one block pays `1` in the first case and `2` twice over in the
second. -/
theorem validateBody_withVerifiers_redirect :
    validateBody exampleBls exampleChain signedBlock = .ok () ∧
      exampleBls.fastAggregateVerify 1 [2, 2] 9 = false ∧
      validateBody exampleBls exampleChain (signedBlock.withVerifiers [⟨2, 2⟩, ⟨2, 2⟩]) = .ok () ∧
      (∃ r, APos.buildRewards 0 2 (writeCanonical exampleRewardDB 5 signedBlock) 0 1 2 false = some (.ok r) ∧
        r.2.1 = [1]) ∧
      ∃ r, APos.buildRewards 0 2 (writeCanonical exampleRewardDB 5 (signedBlock.withVerifiers [⟨2, 2⟩, ⟨2, 2⟩]))
          0 1 2 false = some (.ok r) ∧ r.2.1 = [2] ∧ r.1 2 = some (2 * (10 ^ 18 / 300 + 1)) := by
  have hsigned : validateBody exampleBls exampleChain signedBlock = .ok () := rfl
  refine ⟨hsigned, rfl, ?_, ExceptFold.exists_ok_of_any_decide (by decide),
    ExceptFold.exists_ok_of_any_decide (by decide)⟩
  exact (validateBody_withVerifiers exampleBls exampleChain signedBlock [⟨2, 2⟩, ⟨2, 2⟩] (by decide) (by decide)
    exampleBls.fastAggregateVerify).trans hsigned


/-! ### The transaction root -/

/-- `NewBlockFromReceipt`: the miner's block, with `DeriveSha` of its transactions as the header's `TxHash`
and no verifiers yet.  The bloom, the receipt root and the rewards are left out. -/
def newBlockFromReceipt (deriveSha : List Tx → Hash) (header : Header Hash SigBytes) (txs : List Tx) :
    Block Tx Addr Hash PkBytes SigBytes :=
  ⟨{ header with txHash := deriveSha txs }, ⟨txs, []⟩⟩

omit [DecidableEq Addr] in
/-- With a Keccak without collisions the transaction root binds the list.  The root of decoded transactions
is computed without a panic, equal roots of two lists of decoded transactions mean equal lists, and when the
chain's `DeriveSha` is the node's, a block `ValidateBody` accepts under the header of the miner's block
carries the miner's transactions, in their order. -/
theorem txHash_binds_transactions (keccak : List UInt8 → Hash) (hk : Function.Injective keccak)
    {L₁ L₂ : List Common.Transaction} (h₁ : ∀ tx ∈ L₁, tx.Decoded) (h₂ : ∀ tx ∈ L₂, tx.Decoded) :
    (Common.deriveSha keccak Common.encodeIndex L₁).isSome ∧
    (Common.deriveSha keccak Common.encodeIndex L₁ = Common.deriveSha keccak Common.encodeIndex L₂ → L₁ = L₂) ∧
    ∀ (chain : ChainView Common.Transaction Hash SigBytes),
      (∀ L : List Common.Transaction, (∀ tx ∈ L, tx.Decoded) →
        Common.deriveSha keccak Common.encodeIndex L = some (chain.deriveSha L)) →
      ∀ (header : Header Hash SigBytes) (b : Block Common.Transaction Addr Hash PkBytes SigBytes),
        b.header = (newBlockFromReceipt chain.deriveSha header L₁ :
          Block Common.Transaction Addr Hash PkBytes SigBytes).header →
        b.body.txs = L₂ → validateBody bls chain b = .ok () → L₂ = L₁ := by
  refine ⟨by simp [Common.deriveSha_decoded keccak h₁], Common.deriveSha_injective keccak hk h₁ h₂, ?_⟩
  intro chain hsha header b hheader htxs hvalid
  -- the accepted root is the miner's, and the node's `DeriveSha` computes both
  have hroot : chain.deriveSha L₂ = chain.deriveSha L₁ := by
    rw [← htxs, validateBody_txHash bls chain hvalid, hheader]
    rfl
  apply Common.deriveSha_injective keccak hk h₂ h₁
  rw [hsha L₂ h₂, hsha L₁ h₁, hroot]

/-- The scheme of the example: nothing decodes, nothing verifies. -/
def wireBls : Bls ℕ ℕ ℕ ℕ (List UInt8) :=
  ⟨fun _ => none, fun _ => none, fun _ _ _ => false, fun _ _ _ => false, fun _ => 0⟩

/-- A chain whose `DeriveSha` hashes with the identity for Keccak. -/
def wireChain : ChainView Common.Transaction (List UInt8) ℕ where
  isBeijing := fun _ => false
  hasBlockAndState := fun _ _ => false
  hasBlock := fun _ _ => false
  deriveSha := fun L => (Common.deriveSha id Common.encodeIndex L).getD []
  headerHash := fun _ => []

/-- A legacy transaction message from the zero address, with zero price and value. -/
def wirePb : Common.PbTransaction :=
  { Common.PbTransaction.empty with
    gasPrice := some ⟨some ⟨0, 0⟩, some ⟨0, 0⟩⟩, value := some ⟨some ⟨0, 0⟩, some ⟨0, 0⟩⟩,
    fromAddr := some ⟨some ⟨0, 0⟩, 0⟩ }

/-- What `FromProtoMessage` makes of it: the copy gives it zero signature values. -/
def wireTx : Common.Transaction :=
  ⟨.legacyTx ⟨0, some (Utils.Uint256.ofUInt64 0), 0, none, some (Utils.zeroBytes 20),
    some (Utils.Uint256.ofUInt64 0), [], some (Utils.Uint256.ofUInt64 0), some (Utils.Uint256.ofUInt64 0),
    some (Utils.Uint256.ofUInt64 0), []⟩⟩

theorem txHash_binds_transactions_wireTx :
    Function.Injective (id : List UInt8 → List UInt8) ∧ (∀ tx ∈ [wireTx], tx.Decoded) ∧
    (Common.deriveSha id Common.encodeIndex [wireTx]).isSome ∧
    (Common.deriveSha id Common.encodeIndex [wireTx] = Common.deriveSha id Common.encodeIndex [wireTx] →
      [wireTx] = [wireTx]) ∧
    ∀ (chain : ChainView Common.Transaction (List UInt8) ℕ),
      (∀ L : List Common.Transaction, (∀ tx ∈ L, tx.Decoded) →
        Common.deriveSha id Common.encodeIndex L = some (chain.deriveSha L)) →
      ∀ (header : Header (List UInt8) ℕ) (b : Block Common.Transaction ℕ (List UInt8) ℕ ℕ),
        b.header = (newBlockFromReceipt chain.deriveSha header [wireTx] :
          Block Common.Transaction ℕ (List UInt8) ℕ ℕ).header →
        b.body.txs = [wireTx] → validateBody wireBls chain b = .ok () → [wireTx] = [wireTx] := by
  have hdecoded : ∀ tx ∈ [wireTx], tx.Decoded := by
    intro tx htx
    rw [List.mem_singleton.1 htx]
    exact ⟨wirePb, by decide⟩
  exact ⟨Function.injective_id, hdecoded,
    txHash_binds_transactions wireBls id Function.injective_id hdecoded hdecoded⟩

end AmazeChain.Internal.BlockValidator
