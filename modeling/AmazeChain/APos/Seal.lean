import Mathlib.Data.Finset.Sort
import AmazeChain.APos.Recents

/-!
# The seal checks against the snapshot

Three places decide whether a signer may sign the next block (`internal/consensus/apos/apos.go`):
`apply` evicts the block leaving the window and rejects a signer still recorded, `verifySeal` rejects a signer
recorded at a block `seen > number - limit`, and `Seal` waits while the local signer is recorded at such a
block or the block number is below the limit.  Both tests compute `number - limit` in `uint64`
(`subU64`).

On a snapshot with its window (`RecentsWindow`) the test of `Seal` is exactly the one of `apply` at every
block number (`sealCheck_eq_ok_iff_apply`), and so is the test of `verifySeal` once the block number reaches
the limit (`verifySeal_eq_ok_iff_apply`).  Below the limit `number - limit` wraps around and `verifySeal`
accepts a signer that `apply` and `Seal` refuse (`verifySeal_accepts_recently_signed`).
-/

set_option linter.unusedSectionVars false

namespace AmazeChain.APos

open SlidingWindow ExceptFold

/-- Block difficulty for in-turn signatures. -/
def diffInTurn : ℕ := 2

/-- Block difficulty for out-of-turn signatures. -/
def diffNoTurn : ℕ := 1

/-- `a - b` in the `uint64` arithmetic of the source, for operands below `2 ^ 64`. -/
def subU64 (a b : ℕ) : ℕ := (2 ^ 64 + a - b) % 2 ^ 64

theorem subU64_of_le {a b : ℕ} (h : b ≤ a) (ha : a < 2 ^ 64) : subU64 a b = a - b := by
  unfold subU64
  omega

variable {Addr Hash : Type} [LinearOrder Addr]

namespace Snapshot

/-- The signers in ascending order. -/
def signersAscending (s : Snapshot Addr Hash) : List Addr := s.signers.sort

/-- Whether a signer is in turn at a block: its position among the ordered signers is the block number modulo
their count (the position is the count for a non-signer). -/
def inturn (s : Snapshot Addr Hash) (number : ℕ) (signer : Addr) : Bool :=
  number % s.signersAscending.length = s.signersAscending.idxOf signer

end Snapshot

open Snapshot

variable (ecrecover : Header Addr Hash → Except (AposError Addr) Addr)

/-- `verifySeal`: the signature in the header is by a signer of `snap` that the block does not find among the
recent signers, and with `fakeDiff` unset the difficulty tells its turn. -/
def verifySeal (fakeDiff : Bool) (snap : Snapshot Addr Hash) (header : Header Addr Hash) :
    Except (AposError Addr) Unit := do
  let number := header.number
  if number = 0 then throw .errUnknownBlock
  let signer ← ecrecover header
  if signer ∉ snap.signers then throw .errUnauthorizedSigner
  -- the loop over the recent signers fails at any entry of the signer, whatever the iteration order
  if ∃ seen ∈ snap.recents.keys, snap.recents.lookup seen = some signer ∧ subU64 number snap.limit < seen then
    throw .errRecentlySigned
  if !fakeDiff then
    let inturn := snap.inturn number signer
    if inturn = true ∧ header.difficulty ≠ diffInTurn then throw .errWrongDifficulty
    if inturn = false ∧ header.difficulty ≠ diffNoTurn then throw .errWrongDifficulty
  pure ()

/-- The loop of `Seal` over the recent signers, in the map's iteration order `order`: the local signer waits
while it signed a block that the next one does not shift out. -/
def sealRecents (snap : Snapshot Addr Hash) (signer : Addr) (number : ℕ) :
    List ℕ → Except (AposError Addr) Unit
  | [] => pure ()
  | seen :: order =>
    if snap.recents.lookup seen = some signer ∧ (number < snap.limit ∨ subU64 number snap.limit < seen) then
      throw (.errSignedRecently snap.limit seen number signer)
    else sealRecents snap signer number order

/-- The checks of `Seal` before it signs block `number` with the local `signer`, on the snapshot `snap` of the
parent, for a configuration of period `period` and a block of `txs` transactions. -/
def sealCheck (period txs : ℕ) (snap : Snapshot Addr Hash) (signer : Addr) (number : ℕ) (order : List ℕ) :
    Except (AposError Addr) Unit := do
  if number = 0 then throw .errUnknownBlock
  if period = 0 ∧ txs = 0 then throw .errSealingPaused
  if signer ∉ snap.signers then throw .errUnauthorizedSigner
  sealRecents snap signer number order

/-! ### What each check accepts -/

theorem sealRecents_eq_ok_iff (snap : Snapshot Addr Hash) (signer : Addr) (number : ℕ) (order : List ℕ) :
    sealRecents snap signer number order = .ok () ↔
      ∀ seen ∈ order, ¬(snap.recents.lookup seen = some signer ∧
        (number < snap.limit ∨ subU64 number snap.limit < seen)) := by
  induction order with
  | nil => simp [sealRecents]
  | cons seen order ih =>
    unfold sealRecents
    rw [List.forall_mem_cons, ← ih]
    by_cases h : snap.recents.lookup seen = some signer ∧ (number < snap.limit ∨ subU64 number snap.limit < seen)
    · simp only [if_pos h, throw_eq_error, reduceCtorEq, false_iff, not_and]
      exact fun h' => absurd h.2 (h' h.1)
    · simp only [if_neg h]
      exact ⟨fun h' => ⟨h, h'⟩, fun h' => h'.2⟩

theorem sealCheck_eq_ok_iff (period txs : ℕ) (snap : Snapshot Addr Hash) (signer : Addr) (number : ℕ)
    (order : List ℕ) :
    sealCheck period txs snap signer number order = .ok () ↔
      number ≠ 0 ∧ ¬(period = 0 ∧ txs = 0) ∧ signer ∈ snap.signers ∧
        sealRecents snap signer number order = .ok () := by
  unfold sealCheck
  by_cases h0 : number = 0
  · simp [h0]
  by_cases hp : period = 0 ∧ txs = 0
  · simp [h0, hp]
  by_cases hs : signer ∈ snap.signers <;> simp [h0, hp, hs]

/-- With `fakeDiff` set, `verifySeal` accepts a header of a signer recorded at no block past
`number - limit`. -/
theorem verifySeal_eq_ok_iff (snap : Snapshot Addr Hash) (header : Header Addr Hash) :
    verifySeal ecrecover true snap header = .ok () ↔
      header.number ≠ 0 ∧ ∃ signer, ecrecover header = .ok signer ∧ signer ∈ snap.signers ∧
        ∀ seen, snap.recents.lookup seen = some signer → seen ≤ subU64 header.number snap.limit := by
  unfold verifySeal
  by_cases h0 : header.number = 0
  · simp [h0]
  cases hr : ecrecover header with
  | error e => simp [h0]
  | ok signer =>
    by_cases hs : signer ∈ snap.signers
    · simp only [h0, hs, ne_eq, not_false_eq_true, true_and, if_false, ok_bind, Except.ok.injEq, exists_eq_left',
        not_true_eq_false]
      simp
      exact ⟨fun h seen hl => h seen (Finmap.mem_keys.2 (Finmap.mem_of_lookup_eq_some hl)) hl,
        fun h seen _ hl => h seen hl⟩
    · simp [h0, hs]

/-- The one header of `apply` on a snapshot: its signer is a signer not found among the recent signers after
the eviction, and its nonce is a vote. -/
theorem apply_singleton_eq_ok_iff (epoch : ℕ)
    (ecrecover : Header Addr Hash → Except (AposError Addr) Addr) (s : Snapshot Addr Hash)
    {header : Header Addr Hash} (hn : header.number = s.number + 1) :
    (∃ s', s.apply epoch ecrecover [header] = .ok s') ↔
      ∃ signer authorize, ecrecover header = .ok signer ∧ signer ∈ s.signers ∧
        ¬HasValue (evict header.number s.limit s.recents) signer ∧ voteOfNonce header.nonce = some authorize := by
  constructor
  · rintro ⟨s', hok⟩
    obtain ⟨-, t, ht, -⟩ := (apply_cons_eq_ok epoch ecrecover).1 hok
    obtain ⟨c, hc, -⟩ := foldlM_cons_eq_ok.1 ht
    obtain ⟨signer, authorize, hr, hs, hf, hv, -⟩ := (applyHeader_eq_ok epoch ecrecover).1 hc
    simp only [applyStart_signers, applyStart_recents] at hs hf
    exact ⟨signer, authorize, hr, hs, hf, hv⟩
  · rintro ⟨signer, authorize, hr, hs, hf, hv⟩
    have hc : applyHeader epoch ecrecover s header =
        .ok (applySigned (applyStart epoch s header.number) header signer authorize) :=
      (applyHeader_eq_ok epoch ecrecover).2 ⟨signer, authorize, hr, by simpa using hs, by simpa using hf, hv, rfl⟩
    exact ⟨_, (apply_cons_eq_ok epoch ecrecover).2 ⟨by simp [hn], _, foldlM_cons_eq_ok.2 ⟨_, hc, rfl⟩, rfl⟩⟩

/-! ### The three tests agree on a snapshot with its window -/

section Window

variable {s : Snapshot Addr Hash} {number : ℕ}

/-- The test of `Seal` finds the signer exactly when it survives the eviction of `apply`. -/
theorem sealRecent_iff_hasValue (hw : RecentsWindow s s.number) (hn : number = s.number + 1)
    (h64 : number < 2 ^ 64) (signer : Addr) :
    (∃ seen, s.recents.lookup seen = some signer ∧ (number < s.limit ∨ subU64 number s.limit < seen)) ↔
      HasValue (evict number s.limit s.recents) signer := by
  constructor
  · rintro ⟨seen, hl, hc⟩
    refine ⟨seen, ?_⟩
    rw [lookup_evict_of_ne]
    · exact hl
    · rintro ⟨hL, rfl⟩
      rcases hc with hc | hc
      · omega
      · rw [subU64_of_le hL h64] at hc
        omega
  · rintro ⟨k, hk⟩
    have hne : ¬(s.limit ≤ number ∧ k = number - s.limit) := (mem_evict.1 (Finmap.mem_of_lookup_eq_some hk)).2
    rw [lookup_evict_of_ne hne] at hk
    -- the block is inside the window of `s`, and it is not the one evicted
    have hin := hw.window k (Finmap.mem_of_lookup_eq_some hk)
    refine ⟨k, hk, ?_⟩
    by_cases hL : s.limit ≤ number
    · right
      rw [subU64_of_le hL h64]
      omega
    · left
      omega

/-- Once the block number reaches the limit, the test of `verifySeal` is the one of `apply`. -/
theorem verifySealRecent_iff_hasValue (hw : RecentsWindow s s.number) (hn : number = s.number + 1)
    (hL : s.limit ≤ number) (h64 : number < 2 ^ 64) (signer : Addr) :
    (∃ seen, s.recents.lookup seen = some signer ∧ subU64 number s.limit < seen) ↔
      HasValue (evict number s.limit s.recents) signer := by
  rw [← sealRecent_iff_hasValue hw hn h64 signer]
  simp [Nat.not_lt.2 hL]

end Window

/-! ### Agreement with `apply` -/

variable (epoch : ℕ)

/-- Once the block number reaches the limit, `verifySeal` accepts exactly the headers `apply` accepts. -/
theorem verifySeal_eq_ok_iff_apply {s : Snapshot Addr Hash} (hr : Reachable epoch ecrecover s)
    {header : Header Addr Hash} (hn : header.number = s.number + 1) (hL : s.limit ≤ header.number)
    (h64 : header.number < 2 ^ 64) {authorize : Bool} (hv : voteOfNonce header.nonce = some authorize) :
    verifySeal ecrecover true s header = .ok () ↔ ∃ s', s.apply epoch ecrecover [header] = .ok s' := by
  rw [verifySeal_eq_ok_iff, apply_singleton_eq_ok_iff epoch ecrecover s hn]
  have hrec := verifySealRecent_iff_hasValue hr.recentsWindow hn hL h64
  constructor
  · rintro ⟨-, signer, hsig, hs, hseen⟩
    refine ⟨signer, authorize, hsig, hs, ?_, hv⟩
    rw [← hrec]
    rintro ⟨seen, hl, hlt⟩
    exact absurd (hseen seen hl) (Nat.not_le.2 hlt)
  · rintro ⟨signer, -, hsig, hs, hf, -⟩
    refine ⟨by omega, signer, hsig, hs, fun seen hl => Nat.not_lt.1 fun hlt => ?_⟩
    exact hf ((hrec signer).1 ⟨seen, hl, hlt⟩)

/-- Three signers, so the limit is 2. -/
def threeSigners : List ℕ := [0, 1, 2]

/-- Block 1 of the three signers, sealed by signer `0`. -/
def threeSignerBlock1 : Header ℕ ℕ := ⟨0, 0, 2, 1, [], nonceAuthVote, 1⟩

/-- Block 2, sealed by signer `1` with a vote to drop itself. -/
def threeSignerBlock2 : Header ℕ ℕ := ⟨1, 1, 2, 2, [], nonceDropVote, 2⟩

/-- The snapshot after block 1: signer `0` recorded at block 1. -/
def afterThreeSignerBlock1 : Snapshot ℕ ℕ := ⟨1, 1, threeSigners.toFinset, Finmap.singleton 1 0, [], ∅⟩

theorem reachable_afterThreeSignerBlock1 : Reachable 30000 recoverCoinbase afterThreeSignerBlock1 :=
  .apply (.newSnapshot 0 0 threeSigners)
    (show (newSnapshot 0 0 threeSigners).apply 30000 recoverCoinbase [threeSignerBlock1] =
      .ok afterThreeSignerBlock1 from rfl)

/-- Block 2 of the three signers, at the limit, with a recent signer recorded and a vote cast. -/
theorem verifySeal_eq_ok_iff_apply_threeSigners :
    verifySeal recoverCoinbase true afterThreeSignerBlock1 threeSignerBlock2 = .ok () ↔
      ∃ s', afterThreeSignerBlock1.apply 30000 recoverCoinbase [threeSignerBlock2] = .ok s' :=
  verifySeal_eq_ok_iff_apply recoverCoinbase 30000 reachable_afterThreeSignerBlock1 rfl (by decide) (by decide) rfl

/-- At every block number, `Seal` signs a header with its signer exactly when `apply` accepts the header. -/
theorem sealCheck_eq_ok_iff_apply {s : Snapshot Addr Hash} (hr : Reachable epoch ecrecover s)
    {header : Header Addr Hash} {signer : Addr} (hn : header.number = s.number + 1) (h64 : header.number < 2 ^ 64)
    (hsig : ecrecover header = .ok signer) {authorize : Bool} (hv : voteOfNonce header.nonce = some authorize)
    {period txs : ℕ} (hp : ¬(period = 0 ∧ txs = 0)) {order : List ℕ} (horder : ∀ k, k ∈ order ↔ k ∈ s.recents) :
    sealCheck period txs s signer header.number order = .ok () ↔
      ∃ s', s.apply epoch ecrecover [header] = .ok s' := by
  -- the loop visits every recorded block, so it sees what the eviction of `apply` leaves
  have hvisit : (∀ seen ∈ order, ¬(s.recents.lookup seen = some signer ∧
      (header.number < s.limit ∨ subU64 header.number s.limit < seen))) ↔
      ¬HasValue (evict header.number s.limit s.recents) signer := by
    rw [← sealRecent_iff_hasValue hr.recentsWindow hn h64]
    exact ⟨fun h ⟨seen, hl, hc⟩ => h seen ((horder seen).2 (Finmap.mem_of_lookup_eq_some hl)) ⟨hl, hc⟩,
      fun h seen _ hc => h ⟨seen, hc⟩⟩
  rw [sealCheck_eq_ok_iff, sealRecents_eq_ok_iff, hvisit, apply_singleton_eq_ok_iff epoch ecrecover s hn]
  constructor
  · rintro ⟨-, -, hs, hf⟩
    exact ⟨signer, authorize, hsig, hs, hf, hv⟩
  · rintro ⟨σ, -, hσ, hs, hf, -⟩
    obtain rfl : σ = signer := Except.ok.inj (hσ.symm.trans hsig)
    exact ⟨by omega, hp, hs, hf⟩

/-! ### Below the limit -/

/-- Five signers, so the limit is 3. -/
def fiveSigners : List ℕ := [0, 1, 2, 3, 4]

/-- Block 1, sealed by signer `0`. -/
def recentBlock1 : Header ℕ ℕ := ⟨0, 0, 2, 1, [], nonceAuthVote, 1⟩

/-- Block 2, sealed by signer `0` again. -/
def recentBlock2 : Header ℕ ℕ := ⟨1, 0, 2, 2, [], nonceAuthVote, 2⟩

/-- The snapshot after block 1: signer `0` recorded at block 1. -/
def afterRecentBlock1 : Snapshot ℕ ℕ := ⟨1, 1, fiveSigners.toFinset, Finmap.singleton 1 0, [], ∅⟩

theorem reachable_afterRecentBlock1 : Reachable 30000 recoverCoinbase afterRecentBlock1 :=
  .apply (.newSnapshot 0 0 fiveSigners)
    (show (newSnapshot 0 0 fiveSigners).apply 30000 recoverCoinbase [recentBlock1] = .ok afterRecentBlock1 from rfl)

/-- Block 2 lies below the limit: `number - limit` wraps around and `verifySeal` accepts the header, while
`apply` rejects it and `Seal` refuses to sign it. -/
theorem verifySeal_accepts_recently_signed :
    Reachable 30000 recoverCoinbase afterRecentBlock1 ∧ recentBlock2.number = afterRecentBlock1.number + 1 ∧
      verifySeal recoverCoinbase true afterRecentBlock1 recentBlock2 = .ok () ∧
      afterRecentBlock1.apply 30000 recoverCoinbase [recentBlock2] = .error .errRecentlySigned ∧
      sealCheck 1 1 afterRecentBlock1 0 recentBlock2.number [1] = .error (.errSignedRecently 3 1 2 0) :=
  ⟨reachable_afterRecentBlock1, rfl, by decide, rfl, by decide⟩

theorem sealCheck_eq_ok_iff_apply_recent :
    sealCheck 1 1 afterRecentBlock1 0 recentBlock2.number [1] = .ok () ↔
      ∃ s', afterRecentBlock1.apply 30000 recoverCoinbase [recentBlock2] = .ok s' :=
  sealCheck_eq_ok_iff_apply recoverCoinbase 30000 reachable_afterRecentBlock1 rfl (by decide) rfl rfl (by decide)
    (fun k => by simp [afterRecentBlock1])

end AmazeChain.APos
