import AmazeChain.APos.Apply

/-!
# The vote bookkeeping of a snapshot

A snapshot keeps the votes since the last checkpoint twice: as the chronological list `votes` and as the
per-account `tally`.  `TallyInvariant` says the two agree: the tally of an account counts the votes on it
(`TallyCounts`) and points where every vote on it points, to add a non-signer or to drop a signer; every
vote was cast by a current signer; no signer has two votes on one account.

`cast` increments an existing tally whatever its direction and `uncast` gives up on a direction mismatch, so
the invariant is what makes them exact (`cast_of_validVote`, `uncast_of_lookup`).  Each stage of a header
keeps it, and so does `apply` (`TallyInvariant.apply`), hence every reachable snapshot satisfies it.

The signers are not kept non-empty: a lone signer that votes itself out empties them
(`selfDrop_signers_eq_empty`), and from then on no header is accepted.
-/

set_option linter.unusedSectionVars false

namespace AmazeChain.APos

open SlidingWindow ExceptFold

variable {Addr Hash : Type} [DecidableEq Addr]

/-- The number of votes on an account. -/
def votesOn (votes : List (Vote Addr)) (a : Addr) : ℕ := votes.countP fun v => v.address = a

theorem votesOn_append_singleton (l : List (Vote Addr)) (v : Vote Addr) (a : Addr) :
    votesOn (l ++ [v]) a = votesOn l a + if v.address = a then 1 else 0 := by
  simp [votesOn, List.countP_append]

theorem votesOn_filter_address_ne (l : List (Vote Addr)) (c a : Addr) :
    votesOn (l.filter fun v => decide (v.address ≠ c)) a = if a = c then 0 else votesOn l a := by
  unfold votesOn
  rw [List.countP_filter]
  by_cases hac : a = c
  · subst hac
    simp
  · rw [if_neg hac]
    congr 1
    funext v
    by_cases hv : v.address = a
    · simp [hv, hac]
    · simp [hv]

theorem votesOn_pos_of_mem {l : List (Vote Addr)} {v : Vote Addr} (hv : v ∈ l) : 0 < votesOn l v.address :=
  List.countP_pos_iff.2 ⟨v, hv, by simp⟩

namespace Snapshot

theorem validVote_iff (s : Snapshot Addr Hash) (a : Addr) (authorize : Bool) :
    s.validVote a authorize = true ↔ authorize = decide (a ∉ s.signers) := by
  unfold validVote
  by_cases h : a ∈ s.signers <;> cases authorize <;> simp [h]

/-- A valid vote on an account whose tally, if any, points the vote's way: the tally counts one more. -/
theorem cast_of_validVote {s : Snapshot Addr Hash} {a : Addr} {authorize : Bool}
    (hv : s.validVote a authorize = true) (hd : ∀ t, s.tally.lookup a = some t → t.authorize = authorize) :
    s.cast a authorize = (true, { s with tally := s.tally.insert a ⟨authorize, (s.tallyOf a).votes + 1⟩ }) := by
  unfold cast
  rw [if_neg (by simp [hv])]
  cases hl : s.tally.lookup a with
  | none => simp [tallyOf, hl]
  | some old =>
    obtain rfl := hd old hl
    simp [tallyOf, hl]

theorem cast_of_not_validVote {s : Snapshot Addr Hash} {a : Addr} {authorize : Bool}
    (hv : s.validVote a authorize = false) : s.cast a authorize = (false, s) := by
  simp [cast, hv]

/-- Uncasting a vote that points the tally's way: the tally counts one fewer, and goes at zero. -/
theorem uncast_of_lookup {s : Snapshot Addr Hash} {a : Addr} {authorize : Bool} {t : Tally}
    (hl : s.tally.lookup a = some t) (ht : t.authorize = authorize) :
    s.uncast a authorize =
      (true, { s with
        tally := if 1 < t.votes then s.tally.insert a { t with votes := t.votes - 1 } else s.tally.erase a }) := by
  unfold uncast
  rw [hl]
  dsimp only
  rw [if_neg (by simp [ht])]
  split <;> rfl

@[simp] theorem uncastVotesBy_votes (s : Snapshot Addr Hash) (signer : Addr) :
    (s.uncastVotesBy signer).votes = s.votes.filter fun v => decide (v.signer ≠ signer) := rfl

theorem uncastVotesBy_tally (s : Snapshot Addr Hash) (signer : Addr) :
    (s.uncastVotesBy signer).tally =
      ((s.votes.filter fun v => decide (v.signer = signer)).foldl
        (fun t v => (t.uncast v.address v.authorize).2) s).tally := rfl

end Snapshot

open Snapshot

/-! ### The tally counts the votes -/

/-- The tally of every account is the number of votes on it, and no tally is zero. -/
structure TallyCounts (s : Snapshot Addr Hash) (votes : List (Vote Addr)) : Prop where
  votes_eq : ∀ a, (s.tallyOf a).votes = votesOn votes a
  pos : ∀ a t, s.tally.lookup a = some t → 0 < t.votes

namespace TallyCounts

variable {s s' : Snapshot Addr Hash} {l : List (Vote Addr)}

theorem of_tally_eq (h : TallyCounts s l) (ht : s'.tally = s.tally) : TallyCounts s' l where
  votes_eq a := by rw [tallyOf, ht]; exact h.votes_eq a
  pos a t := by rw [ht]; exact h.pos a t

theorem perm (h : TallyCounts s l) {l' : List (Vote Addr)} (hp : l.Perm l') : TallyCounts s l' where
  votes_eq a := by rw [h.votes_eq a, votesOn, votesOn, hp.countP_eq]
  pos := h.pos

theorem lookup_of_mem (h : TallyCounts s l) {v : Vote Addr} (hv : v ∈ l) :
    ∃ t, s.tally.lookup v.address = some t := by
  have hpos := votesOn_pos_of_mem hv
  rw [← h.votes_eq] at hpos
  cases hl : s.tally.lookup v.address with
  | none => simp [tallyOf, hl] at hpos
  | some t => exact ⟨t, rfl⟩

/-- Casting a vote: its account's tally counts one more. -/
theorem insert (h : TallyCounts s l) (v : Vote Addr) (authorize : Bool) :
    TallyCounts { s with tally := s.tally.insert v.address ⟨authorize, (s.tallyOf v.address).votes + 1⟩ }
      (l ++ [v]) where
  votes_eq a := by
    rw [votesOn_append_singleton, ← h.votes_eq]
    by_cases ha : a = v.address
    · subst ha
      simp [tallyOf]
    · simp [tallyOf, Finmap.lookup_insert_of_ne _ ha, Ne.symm ha]
  pos a t ht := by
    by_cases ha : a = v.address
    · subst ha
      simp only [Finmap.lookup_insert, Option.some.injEq] at ht
      rw [← ht]
      exact Nat.succ_pos _
    · rw [Finmap.lookup_insert_of_ne _ ha] at ht
      exact h.pos a t ht

/-- Uncasting one of the votes: its account's tally counts one fewer and goes when it reaches zero. -/
theorem uncast {l₁ l₂ : List (Vote Addr)} {v : Vote Addr} {t : Tally} (h : TallyCounts s (l₁ ++ v :: l₂))
    (hl : s.tally.lookup v.address = some t) :
    TallyCounts { s with
      tally := if 1 < t.votes then s.tally.insert v.address { t with votes := t.votes - 1 }
        else s.tally.erase v.address } (l₁ ++ l₂) where
  votes_eq a := by
    have hsplit : votesOn (l₁ ++ v :: l₂) a = votesOn (l₁ ++ l₂) a + if v.address = a then 1 else 0 := by
      simp only [votesOn, List.countP_append, List.countP_cons, decide_eq_true_eq]
      omega
    have hv := h.votes_eq a
    rw [hsplit] at hv
    by_cases ha : a = v.address
    · subst ha
      have ht : (s.tallyOf v.address).votes = t.votes := by simp [tallyOf, hl]
      simp only [if_true] at hv
      split <;> simp [tallyOf] <;> omega
    · have hva : ¬v.address = a := Ne.symm ha
      simp only [hva, if_false, Nat.add_zero] at hv
      split <;> simpa [tallyOf, Finmap.lookup_insert_of_ne _ ha, Finmap.lookup_erase_ne ha] using hv
  pos a x hx := by
    by_cases ha : a = v.address
    · subst ha
      split at hx
      · simp only [Finmap.lookup_insert, Option.some.injEq] at hx
        rw [← hx]
        dsimp only
        omega
      · simp at hx
    · split at hx
      · rw [Finmap.lookup_insert_of_ne _ ha] at hx
        exact h.pos a x hx
      · rw [Finmap.lookup_erase_ne ha] at hx
        exact h.pos a x hx

/-- Discarding every vote on an account together with its tally. -/
theorem erase (h : TallyCounts s l) (c : Addr) :
    TallyCounts { s with tally := s.tally.erase c } (l.filter fun v => decide (v.address ≠ c)) where
  votes_eq a := by
    rw [votesOn_filter_address_ne]
    by_cases ha : a = c
    · subst ha
      simp [tallyOf]
    · simp [tallyOf, Finmap.lookup_erase_ne ha, ha, ← h.votes_eq]
  pos a t ht := by
    by_cases ha : a = c
    · subst ha
      simp at ht
    · rw [Finmap.lookup_erase_ne ha] at ht
      exact h.pos a t ht

end TallyCounts

/-- Uncasting a tally's own entries keeps the tally pointing the way of the signer set `S`. -/
theorem lookup_decrement {tally : Finmap fun _ : Addr => Tally} {a b : Addr} {t y : Tally}
    (hy : (if 1 < t.votes then tally.insert a { t with votes := t.votes - 1 } else tally.erase a).lookup b =
      some y) (ha : tally.lookup a = some t) : ∃ z, tally.lookup b = some z ∧ y.authorize = z.authorize := by
  by_cases hb : b = a
  · subst hb
    split at hy
    · simp only [Finmap.lookup_insert, Option.some.injEq] at hy
      exact ⟨t, ha, by rw [← hy]⟩
    · simp at hy
  · split at hy
    · rw [Finmap.lookup_insert_of_ne _ hb] at hy
      exact ⟨y, hy, rfl⟩
    · rw [Finmap.lookup_erase_ne hb] at hy
      exact ⟨y, hy, rfl⟩

/-- The loop of `uncastVotesBy`: uncasting the votes `l` of a tally of `kept ++ l`, each pointing the way the
tally points, leaves a tally of `kept` that still points the way of `S`. -/
theorem foldl_uncast_counts (S : Finset Addr) :
    ∀ (l kept : List (Vote Addr)) (t : Snapshot Addr Hash), TallyCounts t (kept ++ l) →
      (∀ a x, t.tally.lookup a = some x → x.authorize = decide (a ∉ S)) →
      (∀ v ∈ l, v.authorize = decide (v.address ∉ S)) →
      TallyCounts (l.foldl (fun t v => (t.uncast v.address v.authorize).2) t) kept ∧
        ∀ a x, (l.foldl (fun t v => (t.uncast v.address v.authorize).2) t).tally.lookup a = some x →
          x.authorize = decide (a ∉ S)
  | [], kept, t, hc, ht, _ => ⟨by simpa using hc, ht⟩
  | v :: l, kept, t, hc, ht, hv => by
    obtain ⟨x, hx⟩ := hc.lookup_of_mem (List.mem_append_right _ List.mem_cons_self)
    have hdir : x.authorize = v.authorize := by
      rw [ht _ _ hx, hv v List.mem_cons_self]
    rw [List.foldl_cons, uncast_of_lookup hx hdir]
    dsimp only
    refine foldl_uncast_counts S l kept _ (hc.uncast hx) ?_ (fun w hw => hv w (List.mem_cons_of_mem _ hw))
    intro a y hy
    obtain ⟨z, hz, hyz⟩ := lookup_decrement hy hx
    rw [hyz, ht a z hz]

/-! ### The invariant -/

/-- The vote bookkeeping of a snapshot is consistent. -/
structure TallyInvariant (s : Snapshot Addr Hash) : Prop where
  counts : TallyCounts s s.votes
  tally_authorize : ∀ a t, s.tally.lookup a = some t → t.authorize = decide (a ∉ s.signers)
  vote_authorize : ∀ v ∈ s.votes, v.authorize = decide (v.address ∉ s.signers)
  vote_signer : ∀ v ∈ s.votes, v.signer ∈ s.signers
  votes_pairwise : s.votes.Pairwise fun v w => ¬(v.signer = w.signer ∧ v.address = w.address)

namespace TallyInvariant

variable {s s' : Snapshot Addr Hash}

/-- The invariant reads only the signers, the votes and the tally. -/
theorem congr (h : TallyInvariant s) (hs : s'.signers = s.signers) (hv : s'.votes = s.votes)
    (ht : s'.tally = s.tally) : TallyInvariant s' where
  counts := hv ▸ h.counts.of_tally_eq ht
  tally_authorize := by rw [hs, ht]; exact h.tally_authorize
  vote_authorize := by rw [hs, hv]; exact h.vote_authorize
  vote_signer := by rw [hs, hv]; exact h.vote_signer
  votes_pairwise := by rw [hv]; exact h.votes_pairwise

theorem of_votes_eq_nil (hv : s.votes = []) (ht : s.tally = ∅) : TallyInvariant s where
  counts := ⟨fun a => by simp [tallyOf, ht, hv, votesOn], fun a t h => by simp [ht] at h⟩
  tally_authorize a t h := by simp [ht] at h
  vote_authorize v h := by simp [hv] at h
  vote_signer v h := by simp [hv] at h
  votes_pairwise := by rw [hv]; exact List.Pairwise.nil

theorem newSnapshot (number : ℕ) (hash : Hash) (signers : List Addr) :
    TallyInvariant (newSnapshot number hash signers) :=
  of_votes_eq_nil rfl rfl

theorem applyStart (h : TallyInvariant s) (epoch number : ℕ) : TallyInvariant (applyStart epoch s number) := by
  unfold Snapshot.applyStart
  split
  · exact of_votes_eq_nil rfl rfl
  · exact h.congr rfl rfl rfl

/-- Discarding the signer's previous vote on the coinbase leaves no such vote. -/
theorem discardVote (h : TallyInvariant s) (signer c : Addr) :
    TallyInvariant (s.discardVote signer c) ∧
      ∀ v ∈ (s.discardVote signer c).votes, ¬(v.signer = signer ∧ v.address = c) := by
  unfold Snapshot.discardVote
  cases hf : s.votes.find? (fun v => decide (v.signer = signer ∧ v.address = c)) with
  | none =>
    refine ⟨h, fun v hv => ?_⟩
    simpa using List.find?_eq_none.1 hf v hv
  | some w =>
    obtain ⟨hw, as, bs, hsplit, has⟩ := List.find?_eq_some_iff_append.1 hf
    have hw' : w.signer = signer ∧ w.address = c := by simpa using hw
    have herase : s.votes.eraseP (fun v => decide (v.signer = signer ∧ v.address = c)) = as ++ bs := by
      have hnone : ∀ b ∈ as, ¬decide (b.signer = signer ∧ b.address = c) = true := by
        intro b hb hpb
        have := has b hb
        rw [hpb] at this
        exact absurd this (by decide)
      rw [hsplit, List.eraseP_append_right _ hnone]
      simp [hw']
    have hmem : w ∈ s.votes := hsplit ▸ List.mem_append_right _ List.mem_cons_self
    obtain ⟨t, hl⟩ := h.counts.lookup_of_mem hmem
    have hdir : t.authorize = w.authorize := by rw [h.tally_authorize _ _ hl, h.vote_authorize w hmem]
    have hsub : (as ++ bs).Sublist s.votes := herase ▸ List.eraseP_sublist
    have hcounts : TallyCounts s (as ++ w :: bs) := hsplit ▸ h.counts
    -- the later votes differ from `w` in the signer or the account
    have hbs : ∀ b ∈ bs, ¬(w.signer = b.signer ∧ w.address = b.address) := by
      have hp := h.votes_pairwise
      rw [hsplit, List.pairwise_append, List.pairwise_cons] at hp
      exact hp.2.1.1
    dsimp only
    rw [uncast_of_lookup hl hdir, herase]
    dsimp only
    refine ⟨⟨(hcounts.uncast hl).of_tally_eq rfl, ?_, fun v hv => h.vote_authorize v (hsub.subset hv),
      fun v hv => h.vote_signer v (hsub.subset hv), h.votes_pairwise.sublist hsub⟩, ?_⟩
    · intro a y hy
      obtain ⟨z, hz, hyz⟩ := lookup_decrement hy hl
      rw [hyz, h.tally_authorize a z hz]
    · intro v hv ⟨hvs, hvc⟩
      rcases List.mem_append.1 hv with hv | hv
      · simpa [hvs, hvc] using has v hv
      · exact hbs v hv ⟨hw'.1.trans hvs.symm, hw'.2.trans hvc.symm⟩

/-- Casting a vote of a signer that has no vote on the coinbase yet. -/
theorem castVote (h : TallyInvariant s) {signer : Addr} (hs : signer ∈ s.signers) (number : ℕ) (c : Addr)
    (authorize : Bool) (hfresh : ∀ v ∈ s.votes, ¬(v.signer = signer ∧ v.address = c)) :
    TallyInvariant (s.castVote signer number c authorize) := by
  unfold Snapshot.castVote
  cases hv : s.validVote c authorize with
  | false =>
    rw [cast_of_not_validVote hv]
    exact h
  | true =>
    have hauth : authorize = decide (c ∉ s.signers) := (validVote_iff s c authorize).1 hv
    rw [cast_of_validVote hv (fun t ht => (h.tally_authorize c t ht).trans hauth.symm)]
    dsimp only
    refine ⟨(h.counts.insert ⟨signer, number, c, authorize⟩ authorize).of_tally_eq rfl, ?_, ?_, ?_, ?_⟩
    · intro a t ht
      by_cases ha : a = c
      · subst ha
        simp only [Finmap.lookup_insert, Option.some.injEq] at ht
        rw [← ht, hauth]
      · rw [Finmap.lookup_insert_of_ne _ ha] at ht
        exact h.tally_authorize a t ht
    · intro v hv
      rcases List.mem_append.1 hv with hv | hv
      · exact h.vote_authorize v hv
      · rw [List.mem_singleton.1 hv]
        exact hauth
    · intro v hv
      rcases List.mem_append.1 hv with hv | hv
      · exact h.vote_signer v hv
      · rw [List.mem_singleton.1 hv]
        exact hs
    · refine List.pairwise_append.2 ⟨h.votes_pairwise, List.pairwise_singleton _ _, ?_⟩
      intro v hv w hw
      rw [List.mem_singleton.1 hw]
      exact hfresh v hv

end TallyInvariant

/-- Discarding every vote on the coinbase and its tally, after the signers changed only at the coinbase. -/
theorem tallyInvariant_discardCoinbase (u : Snapshot Addr Hash) (S : Finset Addr) (c : Addr)
    (hc : TallyCounts u u.votes) (ht : ∀ a t, u.tally.lookup a = some t → t.authorize = decide (a ∉ S))
    (hv : ∀ v ∈ u.votes, v.authorize = decide (v.address ∉ S)) (hs : ∀ v ∈ u.votes, v.signer ∈ u.signers)
    (hp : u.votes.Pairwise fun v w => ¬(v.signer = w.signer ∧ v.address = w.address))
    (hS : ∀ a, a ≠ c → (a ∈ u.signers ↔ a ∈ S)) :
    TallyInvariant { u with
      votes := u.votes.filter fun v => decide (v.address ≠ c)
      tally := u.tally.erase c } where
  counts := (hc.erase c).of_tally_eq rfl
  tally_authorize a t hat := by
    by_cases ha : a = c
    · subst ha
      simp at hat
    · rw [Finmap.lookup_erase_ne ha] at hat
      simp [ht a t hat, hS a ha]
  vote_authorize v hvm := by
    obtain ⟨hvm, hvc⟩ := List.mem_filter.1 hvm
    have hvc : v.address ≠ c := by simpa using hvc
    simp [hv v hvm, hS _ hvc]
  vote_signer v hvm := hs v (List.mem_filter.1 hvm).1
  votes_pairwise := hp.sublist List.filter_sublist

/-- Removing the votes of a dropped signer keeps the tally counting the remaining votes. -/
theorem uncastVotesBy_counts (S : Finset Addr) (t : Snapshot Addr Hash) (c : Addr) (hc : TallyCounts t t.votes)
    (ht : ∀ a x, t.tally.lookup a = some x → x.authorize = decide (a ∉ S))
    (hv : ∀ v ∈ t.votes, v.authorize = decide (v.address ∉ S)) :
    TallyCounts (t.uncastVotesBy c) (t.uncastVotesBy c).votes ∧
      ∀ a x, (t.uncastVotesBy c).tally.lookup a = some x → x.authorize = decide (a ∉ S) := by
  have hperm : (t.votes.filter fun v => decide (v.signer ≠ c)) ++
      (t.votes.filter fun v => decide (v.signer = c)) |>.Perm t.votes := by
    have hfilter : (t.votes.filter fun v => !decide (v.signer ≠ c)) = t.votes.filter fun v => decide (v.signer = c) :=
      List.filter_congr fun v _ => by simp
    have := List.filter_append_perm (fun v : Vote Addr => decide (v.signer ≠ c)) t.votes
    rwa [hfilter] at this
  obtain ⟨hc', ht'⟩ := foldl_uncast_counts S _ _ t (hc.perm hperm.symm) ht
    (fun v hv' => hv v (List.mem_filter.1 hv').1)
  exact ⟨(hc'.of_tally_eq (uncastVotesBy_tally t c)), by rw [uncastVotesBy_tally]; exact ht'⟩

namespace TallyInvariant

variable {s s' : Snapshot Addr Hash}

theorem passVote (h : TallyInvariant s) (number : ℕ) (c : Addr) : TallyInvariant (s.passVote number c) := by
  unfold Snapshot.passVote
  dsimp only
  split
  · split
    · -- the coinbase joins the signers
      refine tallyInvariant_discardCoinbase _ s.signers c (h.counts.of_tally_eq rfl) h.tally_authorize h.vote_authorize
        (fun v hv => Finset.mem_insert_of_mem (h.vote_signer v hv)) h.votes_pairwise ?_
      intro a ha
      simp [ha]
    · -- the coinbase leaves the signers, and its votes go with it
      let t := { s with signers := s.signers.erase c }.evictRecent number
      obtain ⟨hc, ht⟩ := uncastVotesBy_counts s.signers t c (h.counts.of_tally_eq rfl) h.tally_authorize
        h.vote_authorize
      refine tallyInvariant_discardCoinbase _ s.signers c hc ht ?_ ?_
        (h.votes_pairwise.sublist List.filter_sublist) ?_
      · intro v hv
        exact h.vote_authorize v (List.mem_filter.1 hv).1
      · intro v hv
        obtain ⟨hv, hvc⟩ := List.mem_filter.1 hv
        simpa using Finset.mem_erase.2 ⟨by simpa using hvc, h.vote_signer v hv⟩
      · intro a ha
        simp [ha]
  · exact h

/-- A header signed by an authorized signer keeps the bookkeeping consistent. -/
theorem applySigned (h : TallyInvariant s) {signer : Addr} (hs : signer ∈ s.signers) (header : Header Addr Hash)
    (authorize : Bool) : TallyInvariant (Snapshot.applySigned s header signer authorize) := by
  unfold Snapshot.applySigned
  have h₁ : TallyInvariant { s with recents := s.recents.insert header.number signer } := h.congr rfl rfl rfl
  obtain ⟨h₂, hfresh⟩ := h₁.discardVote signer header.coinbase
  exact (h₂.castVote (by simpa using hs) header.number header.coinbase authorize hfresh).passVote
    header.number header.coinbase

variable (epoch : ℕ) (ecrecover : Header Addr Hash → Except (AposError Addr) Addr)

theorem applyHeader (h : TallyInvariant s) {header : Header Addr Hash}
    (hok : Snapshot.applyHeader epoch ecrecover s header = .ok s') : TallyInvariant s' := by
  obtain ⟨signer, authorize, -, hs, -, -, rfl⟩ := (applyHeader_eq_ok epoch ecrecover).1 hok
  exact (h.applyStart epoch header.number).applySigned hs header authorize

theorem apply (h : TallyInvariant s) {headers : List (Header Addr Hash)}
    (hok : s.apply epoch ecrecover headers = .ok s') : TallyInvariant s' := by
  cases headers with
  | nil =>
    cases hok
    exact h
  | cons first rest =>
    obtain ⟨-, t, ht, rfl⟩ := (apply_cons_eq_ok epoch ecrecover).1 hok
    exact (foldlM_inv TallyInvariant (fun _ _ _ hb hc => hb.applyHeader epoch ecrecover hc) h ht).congr
      rfl rfl rfl

end TallyInvariant

variable (epoch : ℕ) (ecrecover : Header Addr Hash → Except (AposError Addr) Addr)

theorem Reachable.tallyInvariant {s : Snapshot Addr Hash} (h : Reachable epoch ecrecover s) :
    TallyInvariant s := by
  induction h with
  | newSnapshot number hash signers => exact TallyInvariant.newSnapshot number hash signers
  | apply _ hok ih => exact ih.apply epoch ecrecover hok

/-- Without signers no header is accepted: its signer is never authorized. -/
theorem apply_cons_ne_ok_of_signers_eq_empty {s s' : Snapshot Addr Hash} (hs : s.signers = ∅)
    (first : Header Addr Hash) (rest : List (Header Addr Hash)) :
    s.apply epoch ecrecover (first :: rest) ≠ .ok s' := by
  intro hok
  obtain ⟨-, t, ht, -⟩ := (apply_cons_eq_ok epoch ecrecover).1 hok
  obtain ⟨t₁, h₁, -⟩ := foldlM_cons_eq_ok.1 ht
  obtain ⟨signer, -, -, hmem, -⟩ := (applyHeader_eq_ok epoch ecrecover).1 h₁
  simp [hs] at hmem

/-- The signers become empty only when the lone signer's own header drops it. -/
theorem applySigned_signers_eq_empty {snap : Snapshot Addr Hash} {header : Header Addr Hash} {signer : Addr}
    {authorize : Bool} (hs : signer ∈ snap.signers) (he : (applySigned snap header signer authorize).signers = ∅) :
    snap.signers = {signer} ∧ header.coinbase = signer := by
  rcases applySigned_signers snap header signer authorize with h | h | h <;> rw [h] at he
  · simp [he] at hs
  · simp at he
  · have hsub : snap.signers ⊆ {header.coinbase} := by
      intro a ha
      by_contra hne
      have : a ∈ snap.signers.erase header.coinbase := Finset.mem_erase.2 ⟨by simpa using hne, ha⟩
      simp [he] at this
    have hc : signer = header.coinbase := Finset.mem_singleton.1 (hsub hs)
    subst hc
    exact ⟨Finset.Subset.antisymm hsub (Finset.singleton_subset_iff.2 hs), rfl⟩

/-- What the vote bookkeeping promises of a snapshot: (1) every tally counts the votes on its account and is
not zero, (2) every vote on an account points the way of its tally, which is to add a non-signer and drop a
signer, (3) every vote was cast by a signer, (4) no two votes share a signer and an account. -/
def VoteBookkeeping (s : Snapshot Addr Hash) : Prop :=
  (∀ a t, s.tally.lookup a = some t → 1 ≤ t.votes ∧ t.votes = votesOn s.votes a) ∧
    (∀ a t, s.tally.lookup a = some t → ∀ v ∈ s.votes, v.address = a →
      v.authorize = t.authorize ∧ t.authorize = decide (a ∉ s.signers)) ∧
    (∀ v ∈ s.votes, v.signer ∈ s.signers) ∧
    s.votes.Pairwise fun v w => ¬(v.signer = w.signer ∧ v.address = w.address)

theorem TallyInvariant.voteBookkeeping {s : Snapshot Addr Hash} (h : TallyInvariant s) : VoteBookkeeping s := by
  refine ⟨fun a t ht => ⟨h.counts.pos a t ht, ?_⟩, fun a t ht v hv hva => ?_, h.vote_signer, h.votes_pairwise⟩
  · rw [← h.counts.votes_eq a]
    simp [tallyOf, ht]
  · rw [h.vote_authorize v hv, h.tally_authorize a t ht, hva]
    exact ⟨rfl, rfl⟩

/-- Every reachable snapshot keeps its vote bookkeeping consistent, and once its signers are empty it accepts
no further header. -/
theorem reachable_voteBookkeeping {s : Snapshot Addr Hash} (h : Reachable epoch ecrecover s) :
    VoteBookkeeping s ∧
      (s.signers = ∅ → ∀ first rest s', s.apply epoch ecrecover (first :: rest) ≠ .ok s') :=
  ⟨h.tallyInvariant.voteBookkeeping, fun hs first rest _ =>
    apply_cons_ne_ok_of_signers_eq_empty epoch ecrecover hs first rest⟩

/-- The signer recovery of the examples below: the seal names the coinbase. -/
def recoverCoinbase (header : Header ℕ ℕ) : Except (AposError ℕ) ℕ := .ok header.coinbase

/-- Block 1, sealed by signer `0` with itself as coinbase and the drop nonce. -/
def selfDropHeader : Header ℕ ℕ := ⟨0, 0, 2, 1, [], nonceDropVote, 1⟩

/-- The snapshot after `selfDropHeader` on a genesis snapshot whose only signer is `0`. -/
def selfDropSnapshot : Snapshot ℕ ℕ := ⟨1, 1, ∅, Finmap.singleton 1 0, [], ∅⟩

theorem reachable_selfDropSnapshot : Reachable 30000 recoverCoinbase selfDropSnapshot :=
  .apply (.newSnapshot 0 0 [0])
    (show (newSnapshot 0 0 [0]).apply 30000 recoverCoinbase [selfDropHeader] = .ok selfDropSnapshot from rfl)

theorem selfDrop_voteBookkeeping :
    VoteBookkeeping selfDropSnapshot ∧
      (selfDropSnapshot.signers = ∅ → ∀ first rest s',
        selfDropSnapshot.apply 30000 recoverCoinbase (first :: rest) ≠ .ok s') :=
  reachable_voteBookkeeping 30000 recoverCoinbase reachable_selfDropSnapshot

/-- The lone signer of a genesis snapshot votes itself out in block 1: `apply` accepts the header and leaves no
signer. -/
theorem selfDrop_signers_eq_empty :
    (newSnapshot 0 0 [0] : Snapshot ℕ ℕ).signers = {0} ∧
      (newSnapshot 0 0 [0]).apply 30000 recoverCoinbase [selfDropHeader] = .ok selfDropSnapshot ∧
      selfDropSnapshot.signers = ∅ :=
  ⟨by decide, rfl, rfl⟩

end AmazeChain.APos
