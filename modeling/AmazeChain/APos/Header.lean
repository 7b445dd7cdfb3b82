import AmazeChain.APos.Seal
import AmazeChain.Txspool.Pool
import AmazeChain.Lib.TwosComplement

/-!
# Producing and verifying a header

The miner builds the header of its next block in `worker.prepareWork` (`internal/miner/worker.go`): the parent's
hash, the next number, a gas limit moved towards the gas ceiling (`CalcGasLimit`), a time after the parent's,
and under London the base fee of `misc.CalcBaseFee`.  `APos.Prepare` (`internal/consensus/apos/apos.go`)
fills in the engine's fields: a vote, the difficulty of the signer's turn, the extra-data layout and the time
after the period.  `APos.verifyHeader` checks each of these fields and `verifyCascadingFields` the ones that
depend on the parent, then the seal (`verifySeal`).

Before London, `prepareWork` leaves the `BaseFee` it starts every header with, `uint256.NewInt(0)`, which is
not nil, and `verifyCascadingFields` rejects every header with a base fee before London: no header the miner
produces before London passes verification (`verifyHeader_rejects_prepared`).

`c.snapshot`, `chain.GetHeader`, the signer recovery and the random choice among the proposals are
arguments.  Block numbers are naturals, read in `uint64` where the source calls `Uint64()`; the APos epoch
is positive.
-/

set_option linter.unusedSectionVars false

namespace AmazeChain.APos

open Txspool (u64 u256 ChainConfig)
open TwosComplement

/-- The fields of `block.Header` that `prepareWork`, `Prepare` and `verifyHeader` read or write. -/
structure BlockHeader (Addr Hash : Type) where
  parentHash : Hash
  coinbase : Addr
  difficulty : ℕ
  number : ℕ
  gasLimit : ℕ
  gasUsed : ℕ
  time : ℕ
  extra : List UInt8
  mixDigest : Hash
  nonce : UInt64
  baseFee : Option ℕ
  deriving DecidableEq, Repr

/-- The errors of `verifyHeader` and of the header's preparation besides those of the vote snapshot and the
seal. -/
inductive HeaderError (Addr : Type) where
  | engine (e : AposError Addr)
  | blockInFuture
  | errInvalidCheckpointBeneficiary
  | errInvalidCheckpointVote
  | errMissingVanity
  | errExtraSigners
  | errInvalidCheckpointSigners
  | errInvalidMixDigest
  | errInvalidDifficulty
  | errInvalidTimestamp
  | errMismatchingCheckpointSigners
  | invalidGasLimit (given max : ℕ)
  | invalidGasUsed (given gasLimit : ℕ)
  | invalidBaseFeeBeforeFork (given : ℕ)
  | invalidGasLimitBound (given want bound : ℕ)
  | gasLimitBelowMin
  | missingBaseFee
  | invalidBaseFee (want given : ℕ)
  deriving DecidableEq, Repr

/-- The texts of the errors that `verifyHeader` and `Prepare` format themselves. -/
def HeaderError.message {Addr : Type} : HeaderError Addr → Option String
  | .blockInFuture => some "block in the future"
  | .invalidGasLimit given max => some s!"invalid gasLimit: have {given}, max {max}"
  | .invalidGasUsed given gasLimit => some s!"invalid gasUsed: have {given}, gasLimit {gasLimit}"
  | .invalidBaseFeeBeforeFork given => some s!"invalid baseFee before fork: have {given}, want <nil>"
  | .invalidGasLimitBound given want bound => some s!"invalid gas limit: have {given}, want {want} +-= {bound}"
  | .gasLimitBelowMin => some "invalid gas limit below 5000"
  | .missingBaseFee => some "header is missing baseFee"
  | _ => none

/-- `params.MinGasLimit`. -/
def minGasLimit : ℕ := 5000

/-- `params.MaxGasLimit`. -/
def maxGasLimit : ℕ := 0x7fffffffffffffff

/-- `params.GasLimitBoundDivisor`: `ApplyBinanceSmartChainParams` would set it to 256, but nothing calls it. -/
def gasLimitBoundDivisor : ℕ := 1024

/-- `params.ElasticityMultiplier`. -/
def elasticityMultiplier : ℕ := 2

/-- `params.BaseFeeChangeDenominator`. -/
def baseFeeChangeDenominator : ℕ := 8

/-- `params.InitialBaseFee`. -/
def initialBaseFee : ℕ := 1000000000

/-- `types.AddressLength`. -/
def addressLength : ℕ := 20

/-- `CalcGasLimit`: the parent's gas limit moved towards the desired limit (at least `MinGasLimit`) by
`parentGasLimit / GasLimitBoundDivisor - 1` in `uint64`. -/
def calcGasLimit (parentGasLimit desiredLimit : ℕ) : ℕ :=
  let delta := (parentGasLimit / gasLimitBoundDivisor + (u64 - 1)) % u64
  let desiredLimit := if desiredLimit < minGasLimit then minGasLimit else desiredLimit
  if parentGasLimit < desiredLimit then
    let limit := (parentGasLimit + delta) % u64
    if limit > desiredLimit then desiredLimit else limit
  else if parentGasLimit > desiredLimit then
    let limit := (parentGasLimit + (u64 - delta)) % u64
    if limit < desiredLimit then desiredLimit else limit
  else parentGasLimit

/-- `misc.VerifyGaslimit`: the gas limit moves by less than the parent's over `GasLimitBoundDivisor`, and stays
at least `MinGasLimit`.  The difference is taken in `int64`, negated if negative, and compared as a
`uint64`. -/
def verifyGaslimit {Addr : Type} (parentGasLimit headerGasLimit : ℕ) : Except (HeaderError Addr) Unit := do
  let diff := wrapInt64 (toInt64 parentGasLimit - toInt64 headerGasLimit)
  let diff := if diff < 0 then wrapInt64 (diff * -1) else diff
  let limit := parentGasLimit / gasLimitBoundDivisor
  if toUint64 diff ≥ limit then
    throw (.invalidGasLimitBound headerGasLimit parentGasLimit ((limit + (u64 - 1)) % u64))
  if headerGasLimit < minGasLimit then throw .gasLimitBelowMin

variable {Addr Hash : Type} [DecidableEq Hash]

/-- `misc.CalcBaseFee`: the initial base fee on the first London block, else the parent's moved by the
parent's gas used against its target; `none` is the nil dereference of a parent without a base fee, and the
division by a zero target of a parent with a gas limit below 2. -/
def calcBaseFee (config : ChainConfig) (parent : BlockHeader Addr Hash) : Option ℕ :=
  if !config.isLondon (parent.number % u64) then some initialBaseFee
  else parent.baseFee.bind fun baseFee =>
    let parentGasTarget := parent.gasLimit / elasticityMultiplier
    if parent.gasUsed = parentGasTarget then some baseFee
    else if parent.gasUsed > parentGasTarget then
      -- `big.Int.Div` panics on a zero divisor
      if parentGasTarget = 0 then none
      else
        let y := baseFee * (parent.gasUsed - parentGasTarget) / parentGasTarget
        some (baseFee + max (y / baseFeeChangeDenominator) 1)
    else
      -- `BigMax(x.Sub(..), Big0)` is the truncated difference
      let y := baseFee * (parentGasTarget - parent.gasUsed) / parentGasTarget
      some (baseFee - y / baseFeeChangeDenominator)

/-- `misc.VerifyEip1559Header`: the gas limit against the parent's (doubled on the first London block), and
the base fee of `CalcBaseFee`. -/
def verifyEip1559Header (config : ChainConfig) (parent header : BlockHeader Addr Hash) :
    Option (Except (HeaderError Addr) Unit) :=
  let parentGasLimit := if !config.isLondon (parent.number % u64) then
      (parent.gasLimit * elasticityMultiplier) % u64
    else parent.gasLimit
  match verifyGaslimit parentGasLimit header.gasLimit with
  | .error e => some (.error e)
  | .ok () =>
    match header.baseFee with
    | none => some (.error .missingBaseFee)
    | some baseFee => (calcBaseFee config parent).map fun expected =>
      if baseFee ≠ expected then .error (.invalidBaseFee expected baseFee) else .ok ()

/-- What the header functions read of the engine and the chain: the chain configuration, the APos epoch and
period, `fakeDiff`, `chain.GetHeader` (which looks the header up by its hash alone), `c.snapshot`, the signer recovery, the bytes of an address, the zero
address and hash, `Header.Hash()`, the pending proposals with their iteration order, `rand.Intn` and the
local signer. -/
structure HeaderEnv (Addr Hash : Type) where
  chainConfig : ChainConfig
  epoch : ℕ
  period : ℕ
  fakeDiff : Bool
  getHeader : Hash → Option (BlockHeader Addr Hash)
  snapshot : ℕ → Hash → List (BlockHeader Addr Hash) → Except (AposError Addr) (Snapshot Addr Hash)
  ecrecover : Header Addr Hash → Except (AposError Addr) Addr
  addressBytes : Addr → List UInt8
  zeroAddress : Addr
  zeroHash : Hash
  hashOf : BlockHeader Addr Hash → Hash
  proposals : Addr → Option Bool
  proposalOrder : List Addr
  intn : ℕ → ℕ
  signer : Addr

variable [LinearOrder Addr] (env : HeaderEnv Addr Hash)

namespace BlockHeader

/-- The fields of a header that the vote snapshot and the seal read. -/
def toHeader (h : BlockHeader Addr Hash) : Header Addr Hash :=
  ⟨h.parentHash, h.coinbase, h.difficulty, h.number, h.extra, h.nonce, env.hashOf h⟩

end BlockHeader

/-- The signers of a snapshot as the extra-data of a checkpoint lists them, in ascending order. -/
def signerBytes (snap : Snapshot Addr Hash) : List UInt8 :=
  (snap.signersAscending.map env.addressBytes).flatten

/-- `verifyCascadingFields`: the parent (the last of `parents`, else `GetHeader`), the timestamp, the gas
used, the base fee and gas limit for the fork, the checkpoint's signer list, and the seal. -/
def verifyCascadingFields (header : BlockHeader Addr Hash) (parents : List (BlockHeader Addr Hash)) :
    Option (Except (HeaderError Addr) Unit) :=
  let number := header.number % u64
  -- the genesis block is the always valid dead-end
  if number = 0 then some (.ok ())
  else
    -- `GetHeader` returns a nil `*block.Header` for a missing one, which the check below catches
    let parent := match parents.getLast? with
      | some parent => some parent
      | none => env.getHeader header.parentHash
    match parent with
    | none => some (.error (.engine .errUnknownBlock))
    | some parent =>
      if parent.number % u64 ≠ number - 1 ∨ env.hashOf parent ≠ header.parentHash then
        some (.error (.engine .errUnknownBlock))
      else if (parent.time + env.period) % u64 > header.time then some (.error .errInvalidTimestamp)
      else if header.gasUsed > header.gasLimit then some (.error (.invalidGasUsed header.gasUsed header.gasLimit))
      else
        let forkCheck : Option (Except (HeaderError Addr) Unit) :=
          if !env.chainConfig.isLondon number then
            match header.baseFee with
            | some baseFee => some (.error (.invalidBaseFeeBeforeFork baseFee))
            | none => some (verifyGaslimit parent.gasLimit header.gasLimit)
          else verifyEip1559Header env.chainConfig parent header
        forkCheck.map fun
          | .error e => .error e
          | .ok () =>
            match env.snapshot (number - 1) header.parentHash parents with
            | .error e => .error (.engine e)
            | .ok snap =>
              if number % env.epoch = 0 ∧
                  (header.extra.drop extraVanity).take (header.extra.length - extraSeal - extraVanity) ≠
                    signerBytes env snap then .error .errMismatchingCheckpointSigners
              else (verifySeal env.ecrecover env.fakeDiff snap (header.toHeader env)).mapError .engine

/-- `APos.verifyHeader` at the wall-clock time `now`. -/
def verifyHeader (now : ℕ) (header : BlockHeader Addr Hash) (parents : List (BlockHeader Addr Hash)) :
    Option (Except (HeaderError Addr) Unit) :=
  let number := header.number % u64
  let checkpoint := number % env.epoch = 0
  let signersBytes := header.extra.length - extraVanity - extraSeal
  if header.number = 0 then some (.error (.engine .errUnknownBlock))
  -- don't waste time checking blocks from the future
  else if header.time > now then some (.error .blockInFuture)
  else if checkpoint ∧ header.coinbase ≠ env.zeroAddress then some (.error .errInvalidCheckpointBeneficiary)
  else if header.nonce ≠ nonceAuthVote ∧ header.nonce ≠ nonceDropVote then some (.error (.engine .errInvalidVote))
  else if checkpoint ∧ header.nonce ≠ nonceDropVote then some (.error .errInvalidCheckpointVote)
  else if header.extra.length < extraVanity then some (.error .errMissingVanity)
  else if header.extra.length < extraVanity + extraSeal then some (.error (.engine .errMissingSignature))
  else if ¬checkpoint ∧ signersBytes ≠ 0 then some (.error .errExtraSigners)
  else if checkpoint ∧ signersBytes % addressLength ≠ 0 then some (.error .errInvalidCheckpointSigners)
  else if header.mixDigest ≠ env.zeroHash then some (.error .errInvalidMixDigest)
  else if number > 0 ∧ (header.difficulty = 0 ∨ header.difficulty ≠ diffInTurn ∧ header.difficulty ≠ diffNoTurn)
    then some (.error .errInvalidDifficulty)
  else if header.gasLimit > maxGasLimit then some (.error (.invalidGasLimit header.gasLimit maxGasLimit))
  else verifyCascadingFields env header parents

/-- `worker.prepareWork` on a parent: the header before the engine's fields, with the `BaseFee` of
`uint256.NewInt(0)` that only London replaces; `none` is the panic of `CalcBaseFee`. -/
def prepareWork (parent : BlockHeader Addr Hash) (timestamp : ℕ) (coinbase : Addr) (gasCeil minerGasCeil : ℕ) :
    Option (BlockHeader Addr Hash) :=
  let timestamp := if parent.time ≥ timestamp then parent.time + 1 else timestamp
  let header : BlockHeader Addr Hash := {
    parentHash := env.hashOf parent
    coinbase
    number := (parent.number + 1) % u256
    gasLimit := calcGasLimit parent.gasLimit gasCeil
    time := timestamp % u64
    difficulty := 0
    -- just for now
    baseFee := some 0
    gasUsed := 0
    extra := []
    mixDigest := env.zeroHash
    nonce := 0 }
  -- set baseFee and GasLimit if we are on an EIP-1559 chain
  if env.chainConfig.isLondon (header.number % u64) then
    (calcBaseFee env.chainConfig parent).map fun baseFee =>
      let header := { header with baseFee := some (baseFee % u256) }
      if !env.chainConfig.isLondon (parent.number % u64) then
        { header with gasLimit := calcGasLimit ((parent.gasLimit * elasticityMultiplier) % u64) minerGasCeil }
      else header
  else some header

/-- `calcDifficulty`: in turn at the block after the snapshot's, or not. -/
def calcDifficulty (snap : Snapshot Addr Hash) (signer : Addr) : ℕ :=
  if snap.inturn (snap.number + 1) signer then diffInTurn else diffNoTurn

/-- `APos.Prepare` at the wall-clock time `now`: a vote on a proposal the snapshot finds valid (none on a
checkpoint), the difficulty, the extra-data of vanity, checkpoint signers and an empty seal, a zero mix
digest, and the time a period after the parent's, or after `now`.  A missing parent is a nil
`*block.Header` inside a non-nil `IHeader`, which passes the `parent == nil` test and panics (`none`). -/
def prepare (now : ℕ) (header : BlockHeader Addr Hash) : Option (Except (HeaderError Addr) (BlockHeader Addr Hash)) :=
  let header := { header with coinbase := env.zeroAddress, nonce := 0 }
  let number := header.number % u64
  match env.snapshot ((number + (u64 - 1)) % u64) header.parentHash [] with
  | .error e => some (.error (.engine e))
  | .ok snap =>
    let header : BlockHeader Addr Hash := if number % env.epoch ≠ 0 then
        -- gather all the proposals that make sense voting on, and vote on a random one
        let addresses := env.proposalOrder.filter fun address =>
          (env.proposals address).any fun authorize => snap.validVote address authorize
        if addresses.isEmpty then header
        else
          let coinbase := addresses.getD (env.intn addresses.length) env.zeroAddress
          { header with coinbase, nonce := if env.proposals coinbase = some true then nonceAuthVote else nonceDropVote }
      else header
    let header : BlockHeader Addr Hash := { header with difficulty := calcDifficulty snap env.signer }
    let extra := if header.extra.length < extraVanity then
        header.extra ++ List.replicate (extraVanity - header.extra.length) 0
      else header.extra
    let extra := extra.take extraVanity
    let extra := if number % env.epoch = 0 then extra ++ signerBytes env snap else extra
    let header := { header with extra := extra ++ List.replicate extraSeal 0, mixDigest := env.zeroHash }
    (env.getHeader header.parentHash).map fun parent =>
      let time := (parent.time + env.period) % u64
      .ok { header with time := if time < now then (now + env.period) % u64 else time }

/-! ### No header with a base fee passes before London -/

/-- Past genesis and before London, `verifyCascadingFields` rejects every header with a base fee: either a
check before it fails, or this one does. -/
theorem verifyCascadingFields_of_baseFee {header : BlockHeader Addr Hash} {baseFee : ℕ}
    (parents : List (BlockHeader Addr Hash)) (hnum : header.number % u64 ≠ 0)
    (hlondon : env.chainConfig.isLondon (header.number % u64) = false) (hfee : header.baseFee = some baseFee) :
    verifyCascadingFields env header parents ≠ some (.ok ()) := by
  unfold verifyCascadingFields
  simp only [hnum, ↓reduceIte, hlondon, Bool.not_false, hfee, Option.map_some]
  split
  · simp
  · split_ifs <;> simp

/-- A check that only rejects: what follows it passes whenever the whole does. -/
theorem of_ite_error_eq_ok {c : Prop} [Decidable c] {e : HeaderError Addr}
    {rest : Option (Except (HeaderError Addr) Unit)} (h : (if c then some (.error e) else rest) = some (.ok ())) :
    rest = some (.ok ()) := by
  split_ifs at h
  · simp at h
  · exact h

/-- A header that `verifyHeader` accepts passes `verifyCascadingFields`: every check before it only rejects. -/
theorem verifyCascadingFields_of_verifyHeader {now : ℕ} {header : BlockHeader Addr Hash}
    {parents : List (BlockHeader Addr Hash)} (h : verifyHeader env now header parents = some (.ok ())) :
    verifyCascadingFields env header parents = some (.ok ()) := by
  unfold verifyHeader at h
  iterate 12 replace h := of_ite_error_eq_ok h
  exact h

/-- Before London `prepareWork` keeps the `BaseFee` of `uint256.NewInt(0)`. -/
theorem prepareWork_of_not_london (parent : BlockHeader Addr Hash) (timestamp : ℕ) (coinbase : Addr)
    (gasCeil minerGasCeil : ℕ) (hlondon : env.chainConfig.isLondon ((parent.number + 1) % u256 % u64) = false) :
    ∃ header, prepareWork env parent timestamp coinbase gasCeil minerGasCeil = some header ∧
      header.number = (parent.number + 1) % u256 ∧ header.baseFee = some 0 := by
  simp only [prepareWork, hlondon, Bool.false_eq_true, ↓reduceIte]
  exact ⟨_, rfl, rfl, rfl⟩

/-- `Prepare` fills in the engine's fields and leaves the number and the base fee alone. -/
theorem prepare_number_baseFee {now : ℕ} {header prepared : BlockHeader Addr Hash}
    (h : prepare env now header = some (.ok prepared)) :
    prepared.number = header.number ∧ prepared.baseFee = header.baseFee := by
  unfold prepare at h
  dsimp only at h
  split at h
  · simp at h
  · obtain ⟨parent, -, hpar⟩ := Option.map_eq_some_iff.1 h
    rw [Except.ok.injEq] at hpar
    subst hpar
    split_ifs <;> simp

/-- No header the miner produces before London passes `verifyHeader`: `prepareWork` leaves its base fee
non-nil, `Prepare`, the execution (its gas used), `Finalize` and `Seal` (its seal bytes) keep the number and
the base fee, and before London a base fee is rejected. -/
theorem verifyHeader_rejects_prepared (parent : BlockHeader Addr Hash) (timestamp : ℕ) (coinbase : Addr)
    (gasCeil minerGasCeil now : ℕ) {header prepared : BlockHeader Addr Hash}
    (hwork : prepareWork env parent timestamp coinbase gasCeil minerGasCeil = some header)
    (hprep : prepare env now header = some (.ok prepared)) (hnum : parent.number + 1 < u64)
    (hlondon : env.chainConfig.isLondon (parent.number + 1) = false)
    (final : BlockHeader Addr Hash) (hfinal : final.number = prepared.number ∧ final.baseFee = prepared.baseFee)
    (verifyNow : ℕ) (parents : List (BlockHeader Addr Hash)) :
    verifyHeader env verifyNow final parents ≠ some (.ok ()) := by
  have hsmall : (parent.number + 1) % u256 % u64 = parent.number + 1 := by
    rw [Nat.mod_eq_of_lt (show parent.number + 1 < u256 by unfold u256; unfold u64 at hnum; omega),
      Nat.mod_eq_of_lt hnum]
  obtain ⟨header', hwork', hnumber, hfee⟩ :=
    prepareWork_of_not_london env parent timestamp coinbase gasCeil minerGasCeil (by rw [hsmall, hlondon])
  rw [hwork, Option.some.injEq] at hwork'
  subst hwork'
  obtain ⟨hpnum, hpfee⟩ := prepare_number_baseFee env hprep
  -- the final header has block number `parent.number + 1` and the base fee 0
  have hfnum : final.number % u64 = parent.number + 1 := by rw [hfinal.1, hpnum, hnumber, hsmall]
  intro h
  exact verifyCascadingFields_of_baseFee env parents (by omega) (by rw [hfnum, hlondon])
    (by rw [hfinal.2, hpfee, hfee]) (verifyCascadingFields_of_verifyHeader env h)

/-- A genesis header of the examples: gas limit 30000000, time 0, the extra-data of a checkpoint with one
signer, and no base fee. -/
def exampleGenesisHeader : BlockHeader ℕ ℕ :=
  ⟨0, 0, 1, 0, 30000000, 0, 0, List.replicate (extraVanity + addressLength + extraSeal) 0, 0, 0, none⟩

/-- A chain without London and with the single signer 1, whose signatures recover to it; a header's hash is
its number plus 100. -/
def preLondonEnv : HeaderEnv ℕ ℕ where
  chainConfig := ⟨none, none, none, none, none, none, false⟩
  epoch := 30000
  period := 3
  fakeDiff := true
  getHeader := fun hash => if hash = 100 then some exampleGenesisHeader else none
  snapshot := fun _ _ _ => .ok ⟨0, 100, {1}, ∅, [], ∅⟩
  ecrecover := fun _ => .ok 1
  addressBytes := fun _ => List.replicate addressLength 0
  zeroAddress := 0
  zeroHash := 0
  hashOf := fun header => header.number + 100
  proposals := fun _ => none
  proposalOrder := []
  intn := id
  signer := 1

/-- The header block 1 gets from `prepareWork` at time 10 and `Prepare` at time 10. -/
def preLondonBlock1 : BlockHeader ℕ ℕ :=
  ⟨100, 0, 2, 1, 30000000, 0, 13, List.replicate (extraVanity + extraSeal) 0, 0, 0, some 0⟩

/-- The miner's block 1 on the chain without London: `verifyHeader` at its time rejects it for its base fee. -/
theorem verifyHeader_rejects_prepared_block1 :
    prepareWork preLondonEnv exampleGenesisHeader 10 0 30000000 30000000 = some { preLondonBlock1 with
        difficulty := 0, time := 10, extra := [], coinbase := 0 } ∧
      prepare preLondonEnv 10 { preLondonBlock1 with difficulty := 0, time := 10, extra := [], coinbase := 0 } =
        some (.ok preLondonBlock1) ∧
      verifyHeader preLondonEnv 13 preLondonBlock1 [exampleGenesisHeader] ≠ some (.ok ()) ∧
      verifyHeader preLondonEnv 13 preLondonBlock1 [exampleGenesisHeader] =
        some (.error (.invalidBaseFeeBeforeFork 0)) := by
  have hwork : prepareWork preLondonEnv exampleGenesisHeader 10 0 30000000 30000000 = some { preLondonBlock1 with
      difficulty := 0, time := 10, extra := [], coinbase := 0 } := by decide
  -- `Prepare` sorts the snapshot's signers, which only the kernel evaluates
  have hprep : prepare preLondonEnv 10 { preLondonBlock1 with difficulty := 0, time := 10, extra := [], coinbase := 0 } =
      some (.ok preLondonBlock1) := by decide +kernel
  exact ⟨hwork, hprep, verifyHeader_rejects_prepared preLondonEnv exampleGenesisHeader 10 0 30000000 30000000 10
    hwork hprep (by decide) (by decide) preLondonBlock1 ⟨rfl, rfl⟩ 13 [exampleGenesisHeader], by decide⟩

end AmazeChain.APos
