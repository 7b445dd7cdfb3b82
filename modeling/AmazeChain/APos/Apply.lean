import AmazeChain.APos.Snapshot
import AmazeChain.Lib.ExceptFold

/-!
# Applying headers to a snapshot

What one iteration of `Snapshot.apply` can do (`applyHeader_eq_ok`): recover the signer, check it against
the snapshot the header is checked against (`applyStart`: votes reset on a checkpoint, the oldest recent
signer evicted) and then, for a valid vote nonce, record the signer and tally the vote (`applySigned`).
Every other lemma about a single header is derived from this one: the position fields are untouched, the
signer set changes by at most one account, and the recent signers are the evicted ones plus the new signer,
evicted once more when a signer was dropped.

A successful `apply` on a non-empty list is a successful fold over headers numbered consecutively from the
snapshot's number (`apply_cons_eq_ok`).  `Reachable` closes `newSnapshot` under successful applications.
-/

set_option linter.unusedSectionVars false

namespace AmazeChain.APos

open SlidingWindow ExceptFold

variable {Addr Hash : Type} [DecidableEq Addr]

namespace Snapshot

variable (epoch : ℕ) (ecrecover : Header Addr Hash → Except (AposError Addr) Addr)

/-- The snapshot a header is checked against: votes reset on a checkpoint block, the oldest recent signer
evicted. -/
def applyStart (snap : Snapshot Addr Hash) (number : ℕ) : Snapshot Addr Hash :=
  (if number % epoch = 0 then snap.resetVotes else snap).evictRecent number

/-- An authorized header not signed recently: record its signer, replace the signer's previous vote on the
coinbase, tally the new one and apply it if it passed. -/
def applySigned (snap : Snapshot Addr Hash) (header : Header Addr Hash) (signer : Addr) (authorize : Bool) :
    Snapshot Addr Hash :=
  (({ snap with recents := snap.recents.insert header.number signer }.discardVote signer
    header.coinbase).castVote signer header.number header.coinbase authorize).passVote header.number
    header.coinbase

theorem applyHeader_eq_ok {snap t : Snapshot Addr Hash} {header : Header Addr Hash} :
    applyHeader epoch ecrecover snap header = .ok t ↔
      ∃ signer authorize, ecrecover header = .ok signer ∧
        signer ∈ (applyStart epoch snap header.number).signers ∧
        ¬HasValue (applyStart epoch snap header.number).recents signer ∧
        voteOfNonce header.nonce = some authorize ∧
        t = applySigned (applyStart epoch snap header.number) header signer authorize := by
  unfold applyHeader applyStart applySigned
  dsimp only
  generalize (if header.number % epoch = 0 then snap.resetVotes else snap).evictRecent header.number = pre
  cases hr : ecrecover header with
  | error e => simp [bind, Except.bind]
  | ok signer =>
    by_cases hs : signer ∈ pre.signers
    · by_cases hrec : HasValue pre.recents signer
      · simp [hs, hrec, bind, Except.bind, throw, throwThe, MonadExceptOf.throw]
      · cases hv : voteOfNonce header.nonce <;>
          simp [hs, hrec, bind, Except.bind, throw, throwThe, MonadExceptOf.throw, pure, Except.pure, eq_comm]
    · simp [hs, bind, Except.bind, throw, throwThe, MonadExceptOf.throw]

@[simp] theorem applyStart_number (snap : Snapshot Addr Hash) (number : ℕ) :
    (applyStart epoch snap number).number = snap.number := by
  unfold applyStart; split <;> rfl

@[simp] theorem applyStart_hash (snap : Snapshot Addr Hash) (number : ℕ) :
    (applyStart epoch snap number).hash = snap.hash := by
  unfold applyStart; split <;> rfl

@[simp] theorem applyStart_signers (snap : Snapshot Addr Hash) (number : ℕ) :
    (applyStart epoch snap number).signers = snap.signers := by
  unfold applyStart; split <;> rfl

@[simp] theorem applyStart_recents (snap : Snapshot Addr Hash) (number : ℕ) :
    (applyStart epoch snap number).recents = evict number snap.limit snap.recents := by
  unfold applyStart; split <;> rfl

@[simp] theorem applySigned_number (snap : Snapshot Addr Hash) (header : Header Addr Hash) (signer : Addr)
    (authorize : Bool) : (applySigned snap header signer authorize).number = snap.number := by
  simp [applySigned]

@[simp] theorem applySigned_hash (snap : Snapshot Addr Hash) (header : Header Addr Hash) (signer : Addr)
    (authorize : Bool) : (applySigned snap header signer authorize).hash = snap.hash := by
  simp [applySigned]

/-- The signers after a header: unchanged, or the coinbase added, or the coinbase dropped. -/
theorem applySigned_signers (snap : Snapshot Addr Hash) (header : Header Addr Hash) (signer : Addr)
    (authorize : Bool) :
    (applySigned snap header signer authorize).signers = snap.signers ∨
      (applySigned snap header signer authorize).signers = insert header.coinbase snap.signers ∨
      (applySigned snap header signer authorize).signers = snap.signers.erase header.coinbase := by
  unfold applySigned
  rw [passVote_signers]
  simp only [castVote_signers, discardVote_signers]
  split
  · split
    · exact .inr (.inl rfl)
    · exact .inr (.inr rfl)
  · exact .inl rfl

/-- A header changes the number of signers by at most one. -/
theorem card_applySigned (snap : Snapshot Addr Hash) (header : Header Addr Hash) (signer : Addr)
    (authorize : Bool) :
    (applySigned snap header signer authorize).signers.card ≤ snap.signers.card + 1 ∧
      snap.signers.card ≤ (applySigned snap header signer authorize).signers.card + 1 := by
  rcases applySigned_signers snap header signer authorize with h | h | h <;> rw [h]
  · omega
  · exact ⟨Finset.card_insert_le _ _, Nat.le_succ_of_le (Finset.card_le_card (Finset.subset_insert _ _))⟩
  · exact ⟨Nat.le_succ_of_le (Finset.card_le_card (Finset.erase_subset _ _)),
      by
        have : snap.signers.card - 1 ≤ (snap.signers.erase header.coinbase).card :=
          Finset.pred_card_le_card_erase
        omega⟩

/-- The recent signers after a header: the new signer recorded at the header's number and, when the vote
dropped a signer, the eviction for the shrunk list of signers. -/
theorem applySigned_recents (snap : Snapshot Addr Hash) (header : Header Addr Hash) (signer : Addr)
    (authorize : Bool) :
    ((applySigned snap header signer authorize).recents = snap.recents.insert header.number signer ∧
        snap.signers.card ≤ (applySigned snap header signer authorize).signers.card) ∨
      (applySigned snap header signer authorize).recents =
        evict header.number (applySigned snap header signer authorize).limit
          (snap.recents.insert header.number signer) := by
  unfold applySigned
  rw [passVote_recents, passVote_signers]
  have ht : (({ snap with recents := snap.recents.insert header.number signer }.discardVote signer
      header.coinbase).castVote signer header.number header.coinbase authorize).signers = snap.signers ∧
      (({ snap with recents := snap.recents.insert header.number signer }.discardVote signer
      header.coinbase).castVote signer header.number header.coinbase authorize).recents =
        snap.recents.insert header.number signer := by simp
  generalize (({ snap with recents := snap.recents.insert header.number signer }.discardVote signer
    header.coinbase).castVote signer header.number header.coinbase authorize) = t at ht
  rw [ht.1, ht.2]
  by_cases hp : snap.signers.card / 2 < (t.tallyOf header.coinbase).votes
  · cases ha : (t.tallyOf header.coinbase).authorize
    · right
      simp [hp, ha, limit, passVote_signers, ht.1]
    · left
      simp only [hp, if_true]
      exact ⟨by simp, Finset.card_le_card (Finset.subset_insert _ _)⟩
  · left
    simp [hp]

/-! ### Folds and `apply` -/

/-- `applyHeader` never changes the position fields. -/
theorem applyHeader_pos {snap t : Snapshot Addr Hash} {header : Header Addr Hash}
    (h : applyHeader epoch ecrecover snap header = .ok t) : t.number = snap.number ∧ t.hash = snap.hash := by
  obtain ⟨signer, authorize, -, -, -, -, rfl⟩ := (applyHeader_eq_ok epoch ecrecover).1 h
  simp

theorem foldlM_applyHeader_pos {headers : List (Header Addr Hash)} {snap t : Snapshot Addr Hash}
    (h : headers.foldlM (applyHeader epoch ecrecover) snap = .ok t) :
    t.number = snap.number ∧ t.hash = snap.hash :=
  foldlM_inv (fun t => t.number = snap.number ∧ t.hash = snap.hash)
    (fun _ _ _ hb hc => (applyHeader_pos epoch ecrecover hc).imp (·.trans hb.1) (·.trans hb.2)) ⟨rfl, rfl⟩ h

/-- The sanity check of `apply`: the headers are numbered `n + 1, n + 2, …`. -/
theorem headersChained_iff {first : Header Addr Hash} {rest : List (Header Addr Hash)} {n : ℕ} :
    (headersChained (first :: rest) = true ∧ first.number = n + 1) ↔
      (first :: rest).map Header.number = List.range' (n + 1) (rest.length + 1) := by
  induction rest generalizing first n with
  | nil => simp [headersChained]
  | cons second rest ih =>
    rw [List.map_cons, List.length_cons, List.range'_succ, List.cons.injEq, ← ih]
    simp only [headersChained, Bool.and_eq_true, decide_eq_true_eq]
    constructor
    · rintro ⟨⟨h₂, hc⟩, h₁⟩
      exact ⟨h₁, hc, by omega⟩
    · rintro ⟨h₁, hc, h₂⟩
      exact ⟨⟨by omega, hc⟩, h₁⟩

/-- A successful `apply` on a non-empty list: consecutive headers and a successful fold, whose result gets
the number of the last header and its hash. -/
theorem apply_cons_eq_ok {s s' : Snapshot Addr Hash} {first : Header Addr Hash}
    {rest : List (Header Addr Hash)} :
    s.apply epoch ecrecover (first :: rest) = .ok s' ↔
      (first :: rest).map Header.number = List.range' (s.number + 1) (rest.length + 1) ∧
        ∃ t, (first :: rest).foldlM (applyHeader epoch ecrecover) s = .ok t ∧
          s' = { t with
            number := s.number + (rest.length + 1)
            hash := ((first :: rest).getLast (List.cons_ne_nil _ _)).hash } := by
  rw [← headersChained_iff]
  unfold apply
  by_cases hc : headersChained (first :: rest) = true
  · by_cases hn : first.number = s.number + 1
    · simp only [hc, hn, Bool.not_true, Bool.false_eq_true, if_false, ne_eq, not_true_eq_false, true_and,
        bind_eq_ok, List.length_cons]
      constructor
      · rintro ⟨t, ht, h⟩
        refine ⟨t, ht, ?_⟩
        rw [(foldlM_applyHeader_pos epoch ecrecover ht).1] at h
        exact (Except.ok.inj h).symm
      · rintro ⟨t, ht, rfl⟩
        refine ⟨t, ht, ?_⟩
        rw [(foldlM_applyHeader_pos epoch ecrecover ht).1]
        rfl
    · simp [hc, hn, throw, throwThe, MonadExceptOf.throw]
  · simp [hc, throw, throwThe, MonadExceptOf.throw]

end Snapshot

variable (epoch : ℕ) (ecrecover : Header Addr Hash → Except (AposError Addr) Addr)

/-- The snapshots reachable from a new snapshot by successful applications of header lists. -/
inductive Reachable : Snapshot Addr Hash → Prop
  | newSnapshot (number : ℕ) (hash : Hash) (signers : List Addr) :
      Reachable (newSnapshot number hash signers)
  | apply {s s' : Snapshot Addr Hash} {headers : List (Header Addr Hash)} :
      Reachable s → s.apply epoch ecrecover headers = .ok s' → Reachable s'

end AmazeChain.APos
