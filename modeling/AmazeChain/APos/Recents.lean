import AmazeChain.APos.Votes

/-!
# The signing window

The recent signers of a snapshot at block `n` are keyed by the blocks of the window `(n - limit, n]` and
hold each signer at most once (`RecentsWindow`).  A header evicts the block that leaves the window, checks
that its signer is not among the remaining ones and records it; when the header drops a signer the limit
shrinks by one and the block leaving the shorter window is evicted as well.  The signers change by at most
one per header, so the limit does too, and the window survives every header (`RecentsWindow.applyHeader`).

Along the headers of one `apply` a stronger fact holds (`Recorded`): every block signed within the window of
the current limit is still recorded with its signer.  The signer of a later header is then checked against
it, so that two blocks by one signer are at least the limit apart, the limit taken at the later block
(`signsApart_of_apply`).
-/

set_option linter.unusedSectionVars false

namespace AmazeChain.APos

open SlidingWindow ExceptFold

variable {Addr Hash : Type} [DecidableEq Addr]

namespace Snapshot

variable (epoch : ℕ) (ecrecover : Header Addr Hash → Except (AposError Addr) Addr)

theorem limit_pos (s : Snapshot Addr Hash) : 0 < s.limit := Nat.succ_pos _

@[simp] theorem applyStart_limit (snap : Snapshot Addr Hash) (number : ℕ) :
    (applyStart epoch snap number).limit = snap.limit := by
  simp [limit]

/-- A header changes the limit by at most one. -/
theorem limit_applySigned (snap : Snapshot Addr Hash) (header : Header Addr Hash) (signer : Addr)
    (authorize : Bool) :
    (applySigned snap header signer authorize).limit ≤ snap.limit + 1 ∧
      snap.limit ≤ (applySigned snap header signer authorize).limit + 1 := by
  have := card_applySigned snap header signer authorize
  unfold limit
  omega

/-- At a block inside the new window, the recent signers after a header are those before it with the new
signer recorded. -/
theorem lookup_applySigned_recents (snap : Snapshot Addr Hash) (header : Header Addr Hash) (signer : Addr)
    (authorize : Bool) {k : ℕ} (hk : header.number < k + (applySigned snap header signer authorize).limit) :
    (applySigned snap header signer authorize).recents.lookup k =
      (snap.recents.insert header.number signer).lookup k := by
  rcases applySigned_recents snap header signer authorize with ⟨h, -⟩ | h
  · rw [h]
  · rw [h, lookup_evict_of_lt hk]

end Snapshot

open Snapshot

/-! ### The window -/

/-- The recent signers of a snapshot at block `n`: keyed by the blocks of the window of its last `limit`
blocks, each signer held once. -/
structure RecentsWindow (t : Snapshot Addr Hash) (n : ℕ) : Prop where
  window : InWindow t.recents n t.limit
  injective : ValuesInjective t.recents

namespace RecentsWindow

variable (epoch : ℕ) (ecrecover : Header Addr Hash → Except (AposError Addr) Addr)
variable {t c : Snapshot Addr Hash} {n : ℕ}

theorem newSnapshot (number : ℕ) (hash : Hash) (signers : List Addr) :
    RecentsWindow (newSnapshot number hash signers) number where
  window k hk := absurd hk Finmap.notMem_empty
  injective a _ _ ha := by simp [APos.newSnapshot] at ha

/-- The next header keeps the window, moved to its block. -/
theorem applyHeader (h : RecentsWindow t n) {header : Header Addr Hash} (hn : header.number = n + 1)
    (hok : Snapshot.applyHeader epoch ecrecover t header = .ok c) : RecentsWindow c (n + 1) := by
  obtain ⟨signer, authorize, -, -, hfresh, -, rfl⟩ := (applyHeader_eq_ok epoch ecrecover).1 hok
  rw [← hn]
  set u := applyStart epoch t header.number
  have hur : u.recents = evict (n + 1) t.limit t.recents := by simp [u, hn]
  have hul : u.limit = t.limit := applyStart_limit epoch t header.number
  -- the signer recorded at the header's block
  have hadv : InWindow (u.recents.insert header.number signer) header.number u.limit := by
    rw [hur, hul, hn]
    exact h.window.advance (limit_pos t) signer
  have hinj : ValuesInjective (u.recents.insert header.number signer) :=
    ValuesInjective.insert (hur ▸ h.injective.evict (n + 1) t.limit) hfresh
  have hL := limit_applySigned u header signer authorize
  rcases applySigned_recents u header signer authorize with ⟨hr, hcard⟩ | hr
  · -- no signer dropped: the limit did not shrink
    have hmono : u.limit ≤ (applySigned u header signer authorize).limit := by
      unfold limit
      omega
    exact ⟨hr ▸ hadv.mono hmono, hr ▸ hinj⟩
  · -- a signer dropped: the block leaving the shorter window was evicted too
    exact ⟨hr ▸ hadv.shrink hL.2, hr ▸ hinj.evict _ _⟩

theorem apply (h : RecentsWindow t t.number) {headers : List (Header Addr Hash)}
    (hok : t.apply epoch ecrecover headers = .ok c) : RecentsWindow c c.number := by
  cases headers with
  | nil =>
    cases hok
    exact h
  | cons first rest =>
    obtain ⟨hnum, u, hu, rfl⟩ := (apply_cons_eq_ok epoch ecrecover).1 hok
    have := foldlM_inv_range Header.number (fun n u => RecentsWindow u n)
      (fun _ _ _ _ hb hidx hc => hb.applyHeader epoch ecrecover hidx hc) h hnum hu
    exact ⟨this.window, this.injective⟩

end RecentsWindow

variable (epoch : ℕ) (ecrecover : Header Addr Hash → Except (AposError Addr) Addr)

theorem Reachable.recentsWindow {s : Snapshot Addr Hash} (h : Reachable epoch ecrecover s) :
    RecentsWindow s s.number := by
  induction h with
  | newSnapshot number hash signers => exact RecentsWindow.newSnapshot number hash signers
  | apply _ hok ih => exact ih.apply epoch ecrecover hok

/-! ### Blocks signed within the window stay recorded -/

/-- Block `k` was signed by `σ`: as recorded in the recent signers of `s`, or as recovered from one of the
headers `l` applied to `s` since. -/
def SignedBefore (s : Snapshot Addr Hash) (l : List (Header Addr Hash)) (k : ℕ) (σ : Addr) : Prop :=
  s.recents.lookup k = some σ ∨ ∃ h ∈ l, h.number = k ∧ ecrecover h = .ok σ

/-- After the headers `l` applied to `s`, at block `s.number + l.length`: every block signed within the
window that the next header keeps is recorded with its signer. -/
def Recorded (s : Snapshot Addr Hash) (l : List (Header Addr Hash)) (t : Snapshot Addr Hash) : Prop :=
  ∀ k σ, SignedBefore ecrecover s l k σ → s.number + l.length + 2 ≤ k + t.limit → t.recents.lookup k = some σ

/-- The headers of `apply` carry the numbers of the blocks after the snapshot's, so the one after a prefix
`l` has the number `n + l.length + 1`. -/
theorem number_of_prefix {L l : List (Header Addr Hash)} {a : Header Addr Hash} {n : ℕ}
    (hL : L.map Header.number = List.range' (n + 1) L.length) (hp : l ++ [a] <+: L) :
    a.number = n + l.length + 1 := by
  obtain ⟨r, rfl⟩ := hp
  -- the entry at position `l.length` on both sides
  have h := congrArg (fun m => m[l.length]?) hL
  simp at h
  omega

/-- One header keeps the blocks of the window recorded. -/
theorem Recorded.applyHeader {s t c : Snapshot Addr Hash} {l : List (Header Addr Hash)} {a : Header Addr Hash}
    (hw : RecentsWindow t (s.number + l.length)) (hrec : Recorded ecrecover s l t)
    (hn : a.number = s.number + l.length + 1) (hok : Snapshot.applyHeader epoch ecrecover t a = .ok c) :
    Recorded ecrecover s (l ++ [a]) c := by
  obtain ⟨signer, authorize, hsig, -, -, -, rfl⟩ := (applyHeader_eq_ok epoch ecrecover).1 hok
  set u := applyStart epoch t a.number
  have hL := limit_applySigned u a signer authorize
  have hul : u.limit = t.limit := applyStart_limit epoch t a.number
  intro k σ hk hkL
  simp only [List.length_append, List.length_singleton] at hkL
  have hlt : a.number < k + (applySigned u a signer authorize).limit := by omega
  rw [lookup_applySigned_recents u a signer authorize hlt]
  rcases hk with hk | ⟨h, hmem, rfl, hσ⟩
  · -- a block recorded in `s`
    have hold := hrec k σ (.inl hk) (by omega)
    have hka : k ≠ a.number := fun e => notMem_of_inWindow hw.window (hn ▸ e ▸ Finmap.mem_of_lookup_eq_some hold)
    rw [Finmap.lookup_insert_of_ne _ hka]
    simp only [u, applyStart_recents]
    rw [lookup_evict_of_lt (by omega)]
    exact hold
  · rcases List.mem_append.1 hmem with hmem | hmem
    · -- a block of an earlier header
      have hold := hrec h.number σ (.inr ⟨h, hmem, rfl, hσ⟩) (by omega)
      have hka : h.number ≠ a.number :=
        fun e => notMem_of_inWindow hw.window (hn ▸ e ▸ Finmap.mem_of_lookup_eq_some hold)
      rw [Finmap.lookup_insert_of_ne _ hka]
      simp only [u, applyStart_recents]
      rw [lookup_evict_of_lt (by omega)]
      exact hold
    · -- the header itself
      obtain rfl := List.mem_singleton.1 hmem
      have : signer = σ := Except.ok.inj (hsig.symm.trans hσ)
      rw [Finmap.lookup_insert, this]

/-- Blocks signed by one signer along the headers `headers` applied to `s`: the signer of a header is
recorded in neither the recent signers of `s` nor an earlier header within the limit of the snapshot the
header is checked against. -/
def SignsApart (s : Snapshot Addr Hash) (headers : List (Header Addr Hash)) : Prop :=
  ∀ pre hj post t σ, headers = pre ++ hj :: post →
    pre.foldlM (Snapshot.applyHeader epoch ecrecover) s = .ok t → ecrecover hj = .ok σ →
    (∀ k, s.recents.lookup k = some σ → k + t.limit ≤ hj.number) ∧
      ∀ hi ∈ pre, ecrecover hi = .ok σ → hi.number + t.limit ≤ hj.number

/-- A header accepted after the recorded prefix: its signer signed no block within the limit. -/
theorem signedBefore_add_limit_le {s t c : Snapshot Addr Hash} {l : List (Header Addr Hash)}
    {a : Header Addr Hash} {σ : Addr} (hrec : Recorded ecrecover s l t) (hn : a.number = s.number + l.length + 1)
    (hok : Snapshot.applyHeader epoch ecrecover t a = .ok c) (hσ : ecrecover a = .ok σ) {k : ℕ}
    (hk : SignedBefore ecrecover s l k σ) : k + t.limit ≤ a.number := by
  obtain ⟨signer, authorize, hsig, -, hfresh, -, -⟩ := (applyHeader_eq_ok epoch ecrecover).1 hok
  obtain rfl : signer = σ := Except.ok.inj (hsig.symm.trans hσ)
  by_contra hlt
  have hold := hrec k signer hk (by omega)
  refine hfresh ⟨k, ?_⟩
  simp only [applyStart_recents]
  rw [lookup_evict_of_lt (by omega)]
  exact hold

/-- Along a successful `apply` from a snapshot with its window, two blocks by one signer are at least the
limit apart. -/
theorem signsApart_of_apply {s s' : Snapshot Addr Hash} (hs : RecentsWindow s s.number)
    {headers : List (Header Addr Hash)} (hok : s.apply epoch ecrecover headers = .ok s') :
    SignsApart epoch ecrecover s headers := by
  intro pre hj post t σ hsplit hpre hσ
  subst hsplit
  -- the headers are numbered from the snapshot's block on, and their fold passes through `t`
  obtain ⟨first, rest, hfr⟩ := List.exists_cons_of_ne_nil (by simp : pre ++ hj :: post ≠ [])
  have hlen : (pre ++ hj :: post).length = rest.length + 1 := by rw [hfr]; rfl
  rw [hfr] at hok
  obtain ⟨hnum, u, hu, -⟩ := (apply_cons_eq_ok epoch ecrecover).1 hok
  rw [← hfr, ← hlen] at hnum
  rw [← hfr] at hu
  obtain ⟨t₀, ht₀, hrest⟩ := foldlM_append_eq_ok.1 hu
  obtain rfl : t₀ = t := Except.ok.inj (ht₀.symm.trans hpre)
  obtain ⟨c, hc, -⟩ := foldlM_cons_eq_ok.1 hrest
  -- the window and the recorded blocks along the prefix
  have hinv := foldlM_prefix_inv
    (fun l b => RecentsWindow b (s.number + l.length) ∧ Recorded ecrecover s l b)
    (fun l a b c hp hb hc => by
      have hn := number_of_prefix hnum (hp.trans (List.prefix_append pre (hj :: post)))
      refine ⟨?_, Recorded.applyHeader epoch ecrecover hb.1 hb.2 hn hc⟩
      rw [List.length_append, List.length_singleton, ← Nat.add_assoc]
      exact hb.1.applyHeader epoch ecrecover hn hc)
    ⟨by simpa using hs, fun k σ hk _ => hk.elim id (fun ⟨_, hmem, _⟩ => absurd hmem List.not_mem_nil)⟩ hpre
  have hn := number_of_prefix hnum (⟨post, by simp⟩ : pre ++ [hj] <+: pre ++ hj :: post)
  exact ⟨fun k hk => signedBefore_add_limit_le epoch ecrecover hinv.2 hn hc hσ (.inl hk),
    fun hi hmem hσi => signedBefore_add_limit_le epoch ecrecover hinv.2 hn hc hσ
      (.inr ⟨hi, hmem, rfl, hσi⟩)⟩

/-- On every reachable snapshot the recent signers lie in the window of its last `limit` blocks and are
distinct, and along every further successful `apply` two blocks by one signer are at least the limit of the
later block apart. -/
theorem reachable_signsApart {s : Snapshot Addr Hash} (h : Reachable epoch ecrecover s) :
    InWindow s.recents s.number s.limit ∧ ValuesInjective s.recents ∧
      ∀ headers s', s.apply epoch ecrecover headers = .ok s' → SignsApart epoch ecrecover s headers :=
  ⟨h.recentsWindow.window, h.recentsWindow.injective,
    fun _ _ hok => signsApart_of_apply epoch ecrecover h.recentsWindow hok⟩

theorem genesis_signsApart :
    InWindow (newSnapshot 0 0 [0, 1, 2] : Snapshot ℕ ℕ).recents 0 (newSnapshot 0 0 [0, 1, 2]).limit ∧
      ValuesInjective (newSnapshot 0 0 [0, 1, 2] : Snapshot ℕ ℕ).recents ∧
      ∀ headers s', (newSnapshot 0 0 [0, 1, 2]).apply 30000 recoverCoinbase headers = .ok s' →
        SignsApart 30000 recoverCoinbase (newSnapshot 0 0 [0, 1, 2]) headers :=
  reachable_signsApart 30000 recoverCoinbase (.newSnapshot 0 0 [0, 1, 2])

end AmazeChain.APos
