import Mathlib.Data.Finmap
import Mathlib.Data.Finset.Card
import AmazeChain.Lib.SlidingWindow

/-!
# The APos vote snapshot

The state of the APos authorization voting at a block (`internal/consensus/apos/snapshot.go`): the set of
authorized signers, the recent signers keyed by block number (spam protection), the votes cast since the last
checkpoint in chronological order, and the tally of those votes per voted account.

`Snapshot.applyHeader` is the body of the loop of `Snapshot.apply`: reset the votes on checkpoint blocks,
evict the oldest recent signer, check the signer, record it, replace its previous vote on the coinbase,
tally the new vote and, if the vote passed, add or drop the coinbase (a drop evicts once more and discards
the dropped signer's votes).  `Snapshot.apply` checks that the headers continue the snapshot and folds
`applyHeader` over them.

Go maps are `Finmap`s and `Finset`s (their iteration order never matters here: the loops over them only
test whether some entry exists), block numbers are naturals, and the two engine parameters `apply` reads,
the epoch length of the configuration and the signer recovery `ecrecover`, are arguments.  `copy` is the
identity on values: its maps are fresh and the votes it shares are never mutated.
-/

set_option linter.unusedSectionVars false

namespace AmazeChain.APos

open SlidingWindow

/-- The errors of the APos engine that the modelled functions return. -/
inductive AposError (Addr : Type) where
  | errUnknownBlock
  | errInvalidVote
  | errMissingSignature
  | errInvalidVotingChain
  | errUnauthorizedSigner
  | errRecentlySigned
  | errWrongDifficulty
  /-- An error of `crypto.Ecrecover` on the seal. -/
  | errRecover
  /-- `Seal`: "sealing paused while waiting for transactions". -/
  | errSealingPaused
  /-- `Seal`: "signed recently, must wait for others", with the limit, the block the signer signed, the block
  number and the signer. -/
  | errSignedRecently (limit seen number : ℕ) (signer : Addr)
  deriving DecidableEq, Repr

/-- The magic nonce of a vote to add a signer, `0xffffffffffffffff`. -/
def nonceAuthVote : UInt64 := 0xffffffffffffffff

/-- The magic nonce of a vote to remove a signer, `0x0000000000000000`. -/
def nonceDropVote : UInt64 := 0

/-- Fixed number of extra-data suffix bytes reserved for the signer seal (`crypto.SignatureLength`). -/
def extraSeal : ℕ := 65

/-- Fixed number of extra-data prefix bytes reserved for signer vanity. -/
def extraVanity : ℕ := 32

/-- The header fields the engine reads; `hash` is `Header.Hash()`. -/
structure Header (Addr Hash : Type) where
  parentHash : Hash
  coinbase : Addr
  difficulty : ℕ
  number : ℕ
  extra : List UInt8
  nonce : UInt64
  hash : Hash
  deriving DecidableEq, Repr

/-- A single vote an authorized signer made to modify the list of authorizations. -/
structure Vote (Addr : Type) where
  signer : Addr
  block : ℕ
  address : Addr
  authorize : Bool
  deriving DecidableEq, Repr

/-- The current score of the votes on one account. -/
structure Tally where
  authorize : Bool
  votes : ℕ
  deriving DecidableEq, Repr

/-- The state of the authorization voting at a given point in time. -/
structure Snapshot (Addr Hash : Type) where
  number : ℕ
  hash : Hash
  signers : Finset Addr
  recents : Finmap fun _ : ℕ => Addr
  votes : List (Vote Addr)
  tally : Finmap fun _ : Addr => Tally

variable {Addr Hash : Type} [DecidableEq Addr]

/-- `ecrecover`: the seal is the last `extraSeal` bytes of the extra-data, from which `recover` (public key
recovery over `SealHash(header)` and the address derivation) gets the signer. -/
def ecrecover (recover : Header Addr Hash → List UInt8 → Except (AposError Addr) Addr)
    (header : Header Addr Hash) : Except (AposError Addr) Addr :=
  if header.extra.length < extraSeal then throw .errMissingSignature
  else recover header (header.extra.drop (header.extra.length - extraSeal))

/-- A snapshot with the given signers and no recent signers, votes or tally (only for the genesis block or a
trusted checkpoint). -/
def newSnapshot (number : ℕ) (hash : Hash) (signers : List Addr) : Snapshot Addr Hash where
  number := number
  hash := hash
  signers := signers.toFinset
  recents := ∅
  votes := []
  tally := ∅

/-- The vote a header's nonce casts, if it is one of the two magic nonces. -/
def voteOfNonce (nonce : UInt64) : Option Bool :=
  if nonce = nonceAuthVote then some true
  else if nonce = nonceDropVote then some false
  else none

namespace Snapshot

/-- `uint64(len(snap.Signers)/2 + 1)`: the signer of a block may sign again `limit` blocks later. -/
def limit (s : Snapshot Addr Hash) : ℕ := s.signers.card / 2 + 1

/-- `snap.Tally[address]`: the tally of an account, the zero tally if it has none. -/
def tallyOf (s : Snapshot Addr Hash) (address : Addr) : Tally := (s.tally.lookup address).getD ⟨false, 0⟩

/-- Whether it makes sense to cast the vote (do not authorize a signer, nor drop a non-signer). -/
def validVote (s : Snapshot Addr Hash) (address : Addr) (authorize : Bool) : Bool :=
  let signer := decide (address ∈ s.signers)
  (signer && !authorize) || (!signer && authorize)

/-- Adds a vote into the tally; an existing tally is incremented whatever its direction. -/
def cast (s : Snapshot Addr Hash) (address : Addr) (authorize : Bool) : Bool × Snapshot Addr Hash :=
  if !s.validVote address authorize then (false, s)
  else
    match s.tally.lookup address with
    | some old => (true, { s with tally := s.tally.insert address { old with votes := old.votes + 1 } })
    | none => (true, { s with tally := s.tally.insert address ⟨authorize, 1⟩ })

/-- `cast` changes only the tally. -/
theorem cast_frame (s : Snapshot Addr Hash) (address : Addr) (authorize : Bool) :
    (s.cast address authorize).2 = { s with tally := (s.cast address authorize).2.tally } := by
  unfold cast
  split
  · rfl
  · cases s.tally.lookup address <;> rfl

/-- Removes a previously cast vote from the tally. -/
def uncast (s : Snapshot Addr Hash) (address : Addr) (authorize : Bool) : Bool × Snapshot Addr Hash :=
  match s.tally.lookup address with
  | none => (false, s)
  | some tally =>
    if tally.authorize ≠ authorize then (false, s)
    else if 1 < tally.votes then
      (true, { s with tally := s.tally.insert address { tally with votes := tally.votes - 1 } })
    else (true, { s with tally := s.tally.erase address })

/-- `uncast` changes only the tally. -/
theorem uncast_frame (s : Snapshot Addr Hash) (address : Addr) (authorize : Bool) :
    (s.uncast address authorize).2 = { s with tally := (s.uncast address authorize).2.tally } := by
  unfold uncast
  cases s.tally.lookup address with
  | none => rfl
  | some tally =>
    dsimp only
    split
    · rfl
    · split <;> rfl

@[simp] theorem cast_number (s : Snapshot Addr Hash) (address : Addr) (authorize : Bool) :
    (s.cast address authorize).2.number = s.number := by rw [cast_frame]

@[simp] theorem cast_hash (s : Snapshot Addr Hash) (address : Addr) (authorize : Bool) :
    (s.cast address authorize).2.hash = s.hash := by rw [cast_frame]

@[simp] theorem cast_signers (s : Snapshot Addr Hash) (address : Addr) (authorize : Bool) :
    (s.cast address authorize).2.signers = s.signers := by rw [cast_frame]

@[simp] theorem cast_recents (s : Snapshot Addr Hash) (address : Addr) (authorize : Bool) :
    (s.cast address authorize).2.recents = s.recents := by rw [cast_frame]

@[simp] theorem cast_votes (s : Snapshot Addr Hash) (address : Addr) (authorize : Bool) :
    (s.cast address authorize).2.votes = s.votes := by rw [cast_frame]

@[simp] theorem uncast_number (s : Snapshot Addr Hash) (address : Addr) (authorize : Bool) :
    (s.uncast address authorize).2.number = s.number := by rw [uncast_frame]

@[simp] theorem uncast_hash (s : Snapshot Addr Hash) (address : Addr) (authorize : Bool) :
    (s.uncast address authorize).2.hash = s.hash := by rw [uncast_frame]

@[simp] theorem uncast_signers (s : Snapshot Addr Hash) (address : Addr) (authorize : Bool) :
    (s.uncast address authorize).2.signers = s.signers := by rw [uncast_frame]

@[simp] theorem uncast_recents (s : Snapshot Addr Hash) (address : Addr) (authorize : Bool) :
    (s.uncast address authorize).2.recents = s.recents := by rw [uncast_frame]

@[simp] theorem uncast_votes (s : Snapshot Addr Hash) (address : Addr) (authorize : Bool) :
    (s.uncast address authorize).2.votes = s.votes := by rw [uncast_frame]

/-- Checkpoint block: remove any votes. -/
def resetVotes (s : Snapshot Addr Hash) : Snapshot Addr Hash :=
  { s with votes := [], tally := ∅ }

@[simp] theorem resetVotes_number (s : Snapshot Addr Hash) : s.resetVotes.number = s.number := rfl
@[simp] theorem resetVotes_hash (s : Snapshot Addr Hash) : s.resetVotes.hash = s.hash := rfl
@[simp] theorem resetVotes_signers (s : Snapshot Addr Hash) : s.resetVotes.signers = s.signers := rfl
@[simp] theorem resetVotes_recents (s : Snapshot Addr Hash) : s.resetVotes.recents = s.recents := rfl
@[simp] theorem resetVotes_votes (s : Snapshot Addr Hash) : s.resetVotes.votes = [] := rfl
@[simp] theorem resetVotes_tally (s : Snapshot Addr Hash) : s.resetVotes.tally = ∅ := rfl

/-- Delete the oldest signer from the recent list to allow it signing again. -/
def evictRecent (s : Snapshot Addr Hash) (number : ℕ) : Snapshot Addr Hash :=
  { s with recents := evict number s.limit s.recents }

@[simp] theorem evictRecent_number (s : Snapshot Addr Hash) (n : ℕ) : (s.evictRecent n).number = s.number := rfl
@[simp] theorem evictRecent_hash (s : Snapshot Addr Hash) (n : ℕ) : (s.evictRecent n).hash = s.hash := rfl
@[simp] theorem evictRecent_signers (s : Snapshot Addr Hash) (n : ℕ) : (s.evictRecent n).signers = s.signers :=
  rfl
@[simp] theorem evictRecent_recents (s : Snapshot Addr Hash) (n : ℕ) :
    (s.evictRecent n).recents = evict n s.limit s.recents := rfl
@[simp] theorem evictRecent_votes (s : Snapshot Addr Hash) (n : ℕ) : (s.evictRecent n).votes = s.votes := rfl
@[simp] theorem evictRecent_tally (s : Snapshot Addr Hash) (n : ℕ) : (s.evictRecent n).tally = s.tally := rfl

/-- Header authorized: discard the previous vote of the signer on the coinbase, uncasting it from the tally
(only one vote is allowed, so the loop stops at the first). -/
def discardVote (s : Snapshot Addr Hash) (signer coinbase : Addr) : Snapshot Addr Hash :=
  match s.votes.find? (fun v => decide (v.signer = signer ∧ v.address = coinbase)) with
  | none => s
  | some vote =>
    { (s.uncast vote.address vote.authorize).2 with
      votes := s.votes.eraseP fun v => decide (v.signer = signer ∧ v.address = coinbase) }

/-- `discardVote` changes only the votes and the tally. -/
theorem discardVote_frame (s : Snapshot Addr Hash) (signer coinbase : Addr) :
    s.discardVote signer coinbase =
      { s with votes := (s.discardVote signer coinbase).votes, tally := (s.discardVote signer coinbase).tally } := by
  unfold discardVote
  split
  · rfl
  · rw [uncast_frame]

@[simp] theorem discardVote_number (s : Snapshot Addr Hash) (signer coinbase : Addr) :
    (s.discardVote signer coinbase).number = s.number := by rw [discardVote_frame]

@[simp] theorem discardVote_hash (s : Snapshot Addr Hash) (signer coinbase : Addr) :
    (s.discardVote signer coinbase).hash = s.hash := by rw [discardVote_frame]

@[simp] theorem discardVote_signers (s : Snapshot Addr Hash) (signer coinbase : Addr) :
    (s.discardVote signer coinbase).signers = s.signers := by rw [discardVote_frame]

@[simp] theorem discardVote_recents (s : Snapshot Addr Hash) (signer coinbase : Addr) :
    (s.discardVote signer coinbase).recents = s.recents := by rw [discardVote_frame]

/-- Tally up the new vote from the signer, appending it to the chronological list if it counted. -/
def castVote (s : Snapshot Addr Hash) (signer : Addr) (number : ℕ) (coinbase : Addr) (authorize : Bool) :
    Snapshot Addr Hash :=
  match s.cast coinbase authorize with
  | (true, s) => { s with votes := s.votes ++ [⟨signer, number, coinbase, authorize⟩] }
  | (false, s) => s

/-- `castVote` changes only the votes and the tally. -/
theorem castVote_frame (s : Snapshot Addr Hash) (signer : Addr) (number : ℕ) (coinbase : Addr)
    (authorize : Bool) :
    s.castVote signer number coinbase authorize =
      { s with
        votes := (s.castVote signer number coinbase authorize).votes
        tally := (s.castVote signer number coinbase authorize).tally } := by
  have h := cast_frame s coinbase authorize
  unfold castVote
  revert h
  cases s.cast coinbase authorize with
  | mk b t =>
    intro h
    dsimp only at h
    rw [h]
    cases b <;> rfl

@[simp] theorem castVote_number (s : Snapshot Addr Hash) (signer : Addr) (number : ℕ) (coinbase : Addr)
    (authorize : Bool) : (s.castVote signer number coinbase authorize).number = s.number := by
  rw [castVote_frame]

@[simp] theorem castVote_hash (s : Snapshot Addr Hash) (signer : Addr) (number : ℕ) (coinbase : Addr)
    (authorize : Bool) : (s.castVote signer number coinbase authorize).hash = s.hash := by
  rw [castVote_frame]

@[simp] theorem castVote_signers (s : Snapshot Addr Hash) (signer : Addr) (number : ℕ) (coinbase : Addr)
    (authorize : Bool) : (s.castVote signer number coinbase authorize).signers = s.signers := by
  rw [castVote_frame]

@[simp] theorem castVote_recents (s : Snapshot Addr Hash) (signer : Addr) (number : ℕ) (coinbase : Addr)
    (authorize : Bool) : (s.castVote signer number coinbase authorize).recents = s.recents := by
  rw [castVote_frame]

/-- Discard the votes the deauthorized signer cast, uncasting each one from the tally in list order (the
loop of `apply` that removes them one at a time). -/
def uncastVotesBy (s : Snapshot Addr Hash) (signer : Addr) : Snapshot Addr Hash :=
  let s' := (s.votes.filter fun v => decide (v.signer = signer)).foldl
    (fun t v => (t.uncast v.address v.authorize).2) s
  { s' with votes := s.votes.filter fun v => decide (v.signer ≠ signer) }

/-- Uncasting a list of votes one by one changes only the tally. -/
theorem foldl_uncast_frame (l : List (Vote Addr)) (s : Snapshot Addr Hash) :
    l.foldl (fun t v => (t.uncast v.address v.authorize).2) s =
      { s with tally := (l.foldl (fun t v => (t.uncast v.address v.authorize).2) s).tally } := by
  induction l generalizing s with
  | nil => rfl
  | cons v l ih =>
    rw [List.foldl_cons, ih, uncast_frame]

/-- `uncastVotesBy` changes only the votes and the tally. -/
theorem uncastVotesBy_frame (s : Snapshot Addr Hash) (signer : Addr) :
    s.uncastVotesBy signer =
      { s with votes := (s.uncastVotesBy signer).votes, tally := (s.uncastVotesBy signer).tally } := by
  unfold uncastVotesBy
  dsimp only
  rw [foldl_uncast_frame]

@[simp] theorem uncastVotesBy_number (s : Snapshot Addr Hash) (signer : Addr) :
    (s.uncastVotesBy signer).number = s.number := by rw [uncastVotesBy_frame]

@[simp] theorem uncastVotesBy_hash (s : Snapshot Addr Hash) (signer : Addr) :
    (s.uncastVotesBy signer).hash = s.hash := by rw [uncastVotesBy_frame]

@[simp] theorem uncastVotesBy_signers (s : Snapshot Addr Hash) (signer : Addr) :
    (s.uncastVotesBy signer).signers = s.signers := by rw [uncastVotesBy_frame]

@[simp] theorem uncastVotesBy_recents (s : Snapshot Addr Hash) (signer : Addr) :
    (s.uncastVotesBy signer).recents = s.recents := by rw [uncastVotesBy_frame]

/-- If the vote on the coinbase passed, update the list of signers: add it, or drop it, evict once more for
the shrunk list and discard its votes; then discard every vote on the coinbase and its tally. -/
def passVote (s : Snapshot Addr Hash) (number : ℕ) (coinbase : Addr) : Snapshot Addr Hash :=
  let tally := s.tallyOf coinbase
  if s.signers.card / 2 < tally.votes then
    let s :=
      if tally.authorize then { s with signers := insert coinbase s.signers }
      else ({ s with signers := s.signers.erase coinbase }.evictRecent number).uncastVotesBy coinbase
    { s with
      votes := s.votes.filter fun v => decide (v.address ≠ coinbase)
      tally := s.tally.erase coinbase }
  else s

@[simp] theorem passVote_number (s : Snapshot Addr Hash) (number : ℕ) (coinbase : Addr) :
    (s.passVote number coinbase).number = s.number := by
  unfold passVote
  dsimp only
  split
  · split <;> simp
  · rfl

@[simp] theorem passVote_hash (s : Snapshot Addr Hash) (number : ℕ) (coinbase : Addr) :
    (s.passVote number coinbase).hash = s.hash := by
  unfold passVote
  dsimp only
  split
  · split <;> simp
  · rfl

theorem passVote_signers (s : Snapshot Addr Hash) (number : ℕ) (coinbase : Addr) :
    (s.passVote number coinbase).signers =
      if s.signers.card / 2 < (s.tallyOf coinbase).votes then
        if (s.tallyOf coinbase).authorize then insert coinbase s.signers else s.signers.erase coinbase
      else s.signers := by
  unfold passVote
  dsimp only
  split
  · split <;> simp
  · rfl

theorem passVote_recents (s : Snapshot Addr Hash) (number : ℕ) (coinbase : Addr) :
    (s.passVote number coinbase).recents =
      if s.signers.card / 2 < (s.tallyOf coinbase).votes ∧ (s.tallyOf coinbase).authorize = false then
        evict number ((s.signers.erase coinbase).card / 2 + 1) s.recents
      else s.recents := by
  unfold passVote
  dsimp only
  by_cases hp : s.signers.card / 2 < (s.tallyOf coinbase).votes
  · cases ha : (s.tallyOf coinbase).authorize <;> simp [hp, limit]
  · simp [hp]

variable (epoch : ℕ) (ecrecover : Header Addr Hash → Except (AposError Addr) Addr)

/-- One iteration of the loop of `apply` over the headers. -/
def applyHeader (snap : Snapshot Addr Hash) (header : Header Addr Hash) :
    Except (AposError Addr) (Snapshot Addr Hash) := do
  let number := header.number
  let snap := if number % epoch = 0 then snap.resetVotes else snap
  let snap := snap.evictRecent number
  let signer ← ecrecover header
  if signer ∉ snap.signers then throw .errUnauthorizedSigner
  if HasValue snap.recents signer then throw .errRecentlySigned
  let snap := { snap with recents := snap.recents.insert number signer }.discardVote signer header.coinbase
  let some authorize := voteOfNonce header.nonce | throw .errInvalidVote
  pure ((snap.castVote signer number header.coinbase authorize).passVote number header.coinbase)

/-- The sanity check that the headers can be applied: their numbers are consecutive. -/
def headersChained : List (Header Addr Hash) → Bool
  | h₁ :: h₂ :: hs => h₂.number = h₁.number + 1 && headersChained (h₂ :: hs)
  | _ => true

/-- A new authorization snapshot from applying the headers to the original one. -/
def apply (s : Snapshot Addr Hash) : List (Header Addr Hash) → Except (AposError Addr) (Snapshot Addr Hash)
  | [] => pure s
  | first :: rest =>
    if !headersChained (first :: rest) then throw .errInvalidVotingChain
    else if first.number ≠ s.number + 1 then throw .errInvalidVotingChain
    else do
      let snap ← (first :: rest).foldlM (applyHeader epoch ecrecover) s
      pure { snap with
        number := snap.number + (first :: rest).length
        hash := ((first :: rest).getLast (List.cons_ne_nil _ _)).hash }

end Snapshot

end AmazeChain.APos
