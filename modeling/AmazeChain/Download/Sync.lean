import Mathlib.Data.Fintype.Card
import Mathlib.Logic.Function.Basic

/-!
# The five goroutines of a full sync

`Downloader.doSync(FullSync)` and `spawnSync` (`internal/download/download.go`) start `fetchHeaders`,
`fetchBodies`, `processHeaders`, `processBodies` and `processChain` (`fetchers.go`, `process.go`), and
return nil only after reading five nil results from `errc`.  Four of the goroutines leave their loop
with nil only once their local `startProcess` is set, and each sets it in a function passed to the one
`sync.Once` of the downloader, `d.once`: only the first of the four to call `d.once.Do` sets its flag.

The model is the interleaving of what the goroutines do with `d.once` and `errc`: a goroutine calls
`d.once.Do`, leaves its loop with nil, returns `ErrCanceled` when the context is done, or (`processChain`)
returns the error of `InsertChain`.  The conditions on the task lists and result maps under which a loop
may end are left out, so every run of the goroutines is a run of the model: what holds of every run here
holds of every scheduling of the code.  Over every run at most one `startProcess` is set
(`SyncState.Inv`), so at most two goroutines send nil, and `doSync` never returns nil
(`doSync_never_returns_nil`).
-/

namespace AmazeChain.Download

inductive Goroutine where
  | fetchHeaders
  | fetchBodies
  | processHeaders
  | processBodies
  | processChain
  deriving DecidableEq

instance : Fintype Goroutine where
  elems := {.fetchHeaders, .fetchBodies, .processHeaders, .processBodies, .processChain}
  complete g := by cases g <;> simp

/-- The four that set `startProcess` in `d.once.Do`. -/
def Goroutine.callsOnce : Goroutine → Bool
  | fetchHeaders => false
  | _ => true

/-- What a goroutine sends on `errc`. -/
inductive SyncResult where
  | ok
  | errCanceled
  | insertChainError
  deriving DecidableEq

structure SyncState where
  /-- `d.once` has run its function -/
  once : Bool
  startProcess : Goroutine → Bool
  /-- what each goroutine has returned -/
  result : Goroutine → Option SyncResult
  /-- the values on `errc`, in the order they were sent -/
  sent : List SyncResult

inductive SyncEvent where
  | onceDo (g : Goroutine)
  | finish (g : Goroutine)
  | cancel (g : Goroutine)
  | insertFailed

namespace SyncState

def init : SyncState := ⟨false, fun _ => false, fun _ => none, []⟩

/-- `d.once.Do(func() { startProcess = true })` in goroutine `g`. -/
def doOnce (s : SyncState) (g : Goroutine) : SyncState :=
  if s.once then s else { s with once := true, startProcess := Function.update s.startProcess g true }

/-- `errc <- fn()`: goroutine `g` returns `r`. -/
def send (s : SyncState) (g : Goroutine) (r : SyncResult) : SyncState :=
  { s with result := Function.update s.result g (some r), sent := s.sent ++ [r] }

/-- One step of one goroutine that has not returned. -/
def step (s : SyncState) : SyncEvent → Option SyncState
  | .onceDo g => if g.callsOnce ∧ s.result g = none then some (s.doOnce g) else none
  -- `fetchHeaders` ends when its task lists are empty; the other four also need `startProcess`
  | .finish g =>
    if s.result g = none ∧ (g = .fetchHeaders ∨ s.startProcess g = true) then some (s.send g .ok) else none
  | .cancel g => if s.result g = none then some (s.send g .errCanceled) else none
  | .insertFailed => if s.result .processChain = none then some (s.send .processChain .insertChainError) else none

def run (s : SyncState) : List SyncEvent → Option SyncState
  | [] => some s
  | e :: es => (s.step e).bind fun s => run s es

end SyncState

/-- `spawnSync` after its goroutines sent `sent`: the first error, nil after `n` nil results, or `none`
while it still waits on `errc`. -/
def spawnSync : ℕ → List SyncResult → Option SyncResult
  | 0, _ => some .ok
  | _ + 1, [] => none
  | n + 1, r :: rs => if r = .ok then spawnSync n rs else some r

/-- `doSync(FullSync)` over what the five goroutines sent. -/
def doSync (s : SyncState) : Option SyncResult := spawnSync 5 s.sent

theorem spawnSync_ok : ∀ (n : ℕ) (rs : List SyncResult), spawnSync n rs = some .ok → n ≤ rs.count .ok
  | 0, _, _ => Nat.zero_le _
  | _ + 1, [], h => by simp [spawnSync] at h
  | n + 1, r :: rs, h => by
    simp only [spawnSync] at h
    split at h
    · rename_i hr
      subst hr
      have := spawnSync_ok n rs h
      simp only [List.count_cons_self]
      omega
    · cases h
      contradiction

namespace SyncState

/-- What holds of every state a run reaches. -/
structure Inv (s : SyncState) : Prop where
  started_unique : ∀ g h, s.startProcess g = true → s.startProcess h = true → g = h
  started_once : ∀ g, s.startProcess g = true → s.once = true
  ok_started : ∀ g, s.result g = some .ok → g = .fetchHeaders ∨ s.startProcess g = true
  count_ok : s.sent.count .ok = (Finset.univ.filter fun g => s.result g = some .ok).card

theorem inv_init : init.Inv :=
  ⟨fun _ _ h => (by cases h), fun _ h => (by cases h), fun _ h => (by cases h), rfl⟩

theorem Inv.doOnce {s : SyncState} (hs : s.Inv) (g : Goroutine) : (s.doOnce g).Inv := by
  unfold SyncState.doOnce
  split
  · exact hs
  · rename_i honce
    -- the first call: no goroutine has its flag yet, and now only `g` has
    have hnone : ∀ h, s.startProcess h = false := fun h => by
      cases hh : s.startProcess h
      · rfl
      · exact absurd (hs.started_once h hh) honce
    refine ⟨fun a b ha hb => ?_, fun _ _ => rfl, fun a ha => ?_, hs.count_ok⟩
    · by_cases hag : a = g
      · by_cases hbg : b = g
        · rw [hag, hbg]
        · simp [Function.update_of_ne hbg, hnone b] at hb
      · simp [Function.update_of_ne hag, hnone a] at ha
    · rcases hs.ok_started a ha with h | h
      · exact .inl h
      · exact absurd h (by simp [hnone a])

/-- The goroutines that have returned nil, after one more returns `r`. -/
theorem card_ok_update {result : Goroutine → Option SyncResult} {g : Goroutine} (hg : result g = none)
    (r : SyncResult) :
    (Finset.univ.filter fun x => Function.update result g (some r) x = some .ok).card =
      (Finset.univ.filter fun x => result x = some .ok).card + if r = .ok then 1 else 0 := by
  split
  · rename_i hr
    subst hr
    have hset : (Finset.univ.filter fun x => Function.update result g (some .ok) x = some .ok) =
        insert g (Finset.univ.filter fun x => result x = some .ok) := by
      ext x
      by_cases hx : x = g
      · subst hx
        simp
      · simp [hx]
    rw [hset, Finset.card_insert_of_notMem (by simp [hg])]
  · rename_i hr
    rw [Nat.add_zero]
    congr 1
    ext x
    by_cases hx : x = g
    · subst hx
      simp [hg, hr]
    · simp [Function.update_of_ne hx]

theorem Inv.send {s : SyncState} (hs : s.Inv) {g : Goroutine} (hg : s.result g = none) (r : SyncResult)
    (hok : r = .ok → g = .fetchHeaders ∨ s.startProcess g = true) : (s.send g r).Inv := by
  refine ⟨hs.started_unique, hs.started_once, fun a ha => ?_, ?_⟩
  · by_cases hag : a = g
    · subst hag
      simp only [SyncState.send, Function.update_self, Option.some.injEq] at ha
      exact hok ha
    · simp only [SyncState.send, Function.update_of_ne hag] at ha
      exact hs.ok_started a ha
  · show (s.sent ++ [r]).count .ok =
      (Finset.univ.filter fun x => Function.update s.result g (some r) x = some .ok).card
    rw [card_ok_update hg r, List.count_append, hs.count_ok, List.count_singleton]
    by_cases hr : r = .ok <;> simp [hr]

/-- One step keeps the invariant. -/
theorem Inv.step {s s' : SyncState} (hs : s.Inv) {e : SyncEvent} (h : s.step e = some s') : s'.Inv := by
  cases e with
  | onceDo g =>
    simp only [SyncState.step] at h
    split at h
    · cases h
      exact hs.doOnce g
    · cases h
  | finish g =>
    simp only [SyncState.step] at h
    split at h
    · rename_i hguard
      cases h
      exact hs.send hguard.1 .ok fun _ => hguard.2
    · cases h
  | cancel g =>
    simp only [SyncState.step] at h
    split at h
    · cases h
      exact hs.send ‹_› .errCanceled fun h => by cases h
    · cases h
  | insertFailed =>
    simp only [SyncState.step] at h
    split at h
    · cases h
      exact hs.send ‹_› .insertChainError fun h => by cases h
    · cases h

/-- Every run keeps the invariant. -/
theorem Inv.run {s : SyncState} (hs : s.Inv) : ∀ {es : List SyncEvent} {s' : SyncState}, s.run es = some s' → s'.Inv
  | [], _, h => by
    cases h
    exact hs
  | e :: es, s', h => by
    simp only [SyncState.run, Option.bind_eq_some_iff] at h
    obtain ⟨s₁, h₁, h₂⟩ := h
    exact (hs.step h₁).run h₂

/-- `fetchHeaders` and the one goroutine whose flag is set are the only ones that can send nil. -/
theorem Inv.count_ok_le {s : SyncState} (hs : s.Inv) : s.sent.count .ok ≤ 2 := by
  have hstarted : (Finset.univ.filter fun g => s.startProcess g = true).card ≤ 1 :=
    Finset.card_le_one.2 fun a ha b hb => hs.started_unique a b (by simpa using ha) (by simpa using hb)
  have hsub : (Finset.univ.filter fun g => s.result g = some .ok) ⊆
      insert .fetchHeaders (Finset.univ.filter fun g => s.startProcess g = true) := by
    intro g hg
    rcases hs.ok_started g (by simpa using hg) with h | h
    · simp [h]
    · simp [h]
  calc s.sent.count .ok = (Finset.univ.filter fun g => s.result g = some .ok).card := hs.count_ok
    _ ≤ (insert .fetchHeaders (Finset.univ.filter fun g => s.startProcess g = true)).card :=
      Finset.card_le_card hsub
    _ ≤ (Finset.univ.filter fun g => s.startProcess g = true).card + 1 := Finset.card_insert_le _ _
    _ ≤ 2 := by omega

end SyncState

/-- Whatever the scheduling and whatever the peers answer, `doSync(FullSync)` never returns nil: it returns
an error, or waits forever on a goroutine that does not leave its loop. -/
theorem doSync_never_returns_nil (events : List SyncEvent) (s : SyncState)
    (hrun : SyncState.init.run events = some s) : doSync s ≠ some .ok := by
  intro hdone
  have hfive := spawnSync_ok 5 s.sent hdone
  have htwo := (SyncState.inv_init.run hrun).count_ok_le
  omega

/-- `processChain` wins `d.once`, `fetchHeaders` and `processChain` finish, and the three others can only
be cancelled: `doSync` returns `ErrCanceled`. -/
def cancelledRun : List SyncEvent :=
  [.onceDo .processChain, .onceDo .processHeaders, .finish .fetchHeaders, .finish .processChain,
    .cancel .fetchBodies, .cancel .processHeaders, .cancel .processBodies]

theorem doSync_never_returns_nil_cancelledRun :
    ∃ s, SyncState.init.run cancelledRun = some s ∧ doSync s = some .errCanceled ∧ doSync s ≠ some .ok := by
  refine ⟨_, rfl, rfl, doSync_never_returns_nil cancelledRun _ rfl⟩

end AmazeChain.Download
