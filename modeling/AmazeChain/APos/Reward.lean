import Mathlib.Algebra.BigOperators.Intervals
import AmazeChain.Txspool.Tx
import AmazeChain.Lib.ListFold

/-!
# Epoch rewards

At every block `n` whose distance from `BeijingBlock` is a multiple of `RewardEpoch`, `APos.Rewards` pays the
depositors listed as verifiers in the bodies of the `RewardEpoch` canonical blocks before `n`
(`internal/consensus/apos/reward.go`).  `buildRewards` runs two loops.  The first adds, for every listing,
the depositor's `RewardPerBlock` to its entry of `rewardMap`, capped at its `MaxRewardPerEpoch`
(`GetDepositInfo`, `contracts/deposit/contract.go`).  The second adds each entry to the account's unpaid
amount, pays the sum when it reaches `RewardLimit` and keeps it unpaid otherwise.

The first loop works on `*uint256.Int` cells: `addrReward.Add(addrReward, ..)` writes its own cell, and
`math.Min256` returns one of its two pointers.  Past the cap `rewardMap` keeps the pointer to the deposit
info's `MaxRewardPerEpoch`, and the next listing adds `RewardPerBlock` to that cell in place.  `RewardLoop`
holds these cells as a heap with the next free address.  `Tracks` says where the loop leaves one depositor,
and `Separated` that the cells of two accounts are never shared: the steps at the other accounts leave a
depositor's cells alone.  From the first listing past the cap on, every listing adds `RewardPerBlock` again
(`buildRewards_pays_aliased`).

The second loop's iterations read and write only their own key, so Go's order over `rewardMap` changes
nothing: it takes the keys in the order the first loop added them.  A read error of the database, the logs,
and the order `sort.Sort` gives the result (by the accounts' hex strings) are left out.
-/

set_option linter.unusedSectionVars false

namespace AmazeChain.APos

open Txspool (u64 u256)

/-- `params.AMT`. -/
def amt : ℕ := 10 ^ 18

/-- `params.Wei`. -/
def wei : ℕ := 1

def dayPerMonth : ℕ := 30

def tenDeposit : ℕ := 10

def oneHundredDeposit : ℕ := 100

def fiveHundredDeposit : ℕ := 500

def tenDepositMaxTaskPerEpoch : ℕ := 10

def oneHundredDepositMaxTaskPerEpoch : ℕ := 100

def fiveHundredDepositMaxTaskPerEpoch : ℕ := 500

def tenDepositRewardPerMonth : ℕ := 1 * amt

def oneHundredDepositRewardPerMonth : ℕ := 2 * amt

def fiveHundredDepositRewardPerMonth : ℕ := 15 * amt

/-- The `switch` of `GetDepositInfo` on a deposit in whole AMT: its `RewardPerBlock` and
`MaxRewardPerEpoch`, or `none` for the panic "wrong deposit amount". -/
def depositTier (depositEther : ℕ) : Option (ℕ × ℕ) :=
  if depositEther = tenDeposit then
    let rewardPerBlock := tenDepositRewardPerMonth / (dayPerMonth * tenDepositMaxTaskPerEpoch) + wei
    some (rewardPerBlock, rewardPerBlock * tenDepositMaxTaskPerEpoch)
  else if depositEther = oneHundredDeposit then
    let rewardPerBlock := oneHundredDepositRewardPerMonth / (dayPerMonth * oneHundredDepositMaxTaskPerEpoch) + wei
    some (rewardPerBlock, rewardPerBlock * oneHundredDepositMaxTaskPerEpoch)
  else if depositEther = fiveHundredDeposit then
    let maxRewardPerEpoch := fiveHundredDepositRewardPerMonth / dayPerMonth
    some (maxRewardPerEpoch / fiveHundredDepositMaxTaskPerEpoch, maxRewardPerEpoch)
  else none

/-- The tables `buildRewards` reads and writes: `ReadCanonicalHash` (the zero hash where none is stored),
whether `ReadHeader` finds a header, the verifiers of the body `ReadBlock` finds, the deposit table (the
amount of a deposit whose public key decodes), and the reward table: the unpaid amount of each account
(`GetAccountReward` reads 0 where none is stored) and the paid amounts of each epoch. -/
structure RewardDB (Addr Hash : Type) where
  canonicalHash : ℕ → Hash
  hasHeader : ℕ → Hash → Bool
  verifiers : ℕ → Hash → Option (List Addr)
  deposits : Addr → Option ℕ
  unpaid : Addr → ℕ
  epochPaid : ℕ → Option (Addr → Option ℕ)

/-- The errors `buildRewards` returns. -/
inductive RewardError where
  | headerTypeAssert
  | blockTypeAssert
  deriving DecidableEq, Repr

/-- The text of a `buildRewards` error. -/
def RewardError.message : RewardError → String
  | .headerTypeAssert => "buildreward header type assert error"
  | .blockTypeAssert => "buildreward block type assert error"

/-- A `*deposit.Info` as `buildRewards` uses it: the cells of its `RewardPerBlock` and `MaxRewardPerEpoch`. -/
structure InfoRef where
  rewardPerBlock : ℕ
  maxRewardPerEpoch : ℕ
  deriving DecidableEq, Repr

/-- The state of the first loop of `buildRewards`: the `uint256` cells and the next free one, `rewardMap`
(a cell for each account, and its keys in the order they were added) and `depositeMap`. -/
structure RewardLoop (Addr : Type) where
  heap : ℕ → ℕ
  alloc : ℕ
  rewardMap : Addr → Option ℕ
  keys : List Addr
  depositeMap : Addr → Option InfoRef

variable {Addr Hash : Type} [DecidableEq Addr] [DecidableEq Hash]

namespace RewardLoop

/-- The loop before its first block. -/
def empty : RewardLoop Addr := ⟨fun _ => 0, 0, fun _ => none, [], fun _ => none⟩

/-- `uint256.NewInt(value)`: a new cell. -/
def newInt (loop : RewardLoop Addr) (value : ℕ) : ℕ × RewardLoop Addr :=
  (loop.alloc, { loop with heap := Function.update loop.heap loop.alloc value, alloc := loop.alloc + 1 })

/-- `addrReward`: the account's cell in `rewardMap`, or a new zero cell. -/
def rewardCell (loop : RewardLoop Addr) (addr : Addr) : ℕ × RewardLoop Addr :=
  match loop.rewardMap addr with
  | some ptr => (ptr, loop)
  | none => loop.newInt 0

/-- `GetDepositInfo`: no info without a deposit, new cells for the two rewards of its tier, and the panic
`none` on an amount of no tier. -/
def getDepositInfo (db : RewardDB Addr Hash) (addr : Addr) (loop : RewardLoop Addr) :
    Option (Option InfoRef × RewardLoop Addr) :=
  match db.deposits addr with
  | none => some (none, loop)
  | some depositAmount =>
    (depositTier (depositAmount / amt % u64)).map fun tier =>
      let (rewardPerBlock, loop) := loop.newInt tier.1
      let (maxRewardPerEpoch, loop) := loop.newInt tier.2
      (some ⟨rewardPerBlock, maxRewardPerEpoch⟩, loop)

/-- `rewardMap[addr] = math.Min256(addrReward.Add(addrReward, RewardPerBlock), MaxRewardPerEpoch)`: the
addition writes `addrReward`'s cell, and `Min256` returns the pointer to `MaxRewardPerEpoch` when it is the
smaller value, else `addrReward`. -/
def addReward (loop : RewardLoop Addr) (addr : Addr) (addrReward : ℕ) (info : InfoRef) : RewardLoop Addr :=
  let heap := Function.update loop.heap addrReward ((loop.heap addrReward + loop.heap info.rewardPerBlock) % u256)
  let ptr := if heap info.maxRewardPerEpoch < heap addrReward then info.maxRewardPerEpoch else addrReward
  { loop with
    heap
    rewardMap := Function.update loop.rewardMap addr (some ptr)
    keys := if (loop.rewardMap addr).isSome then loop.keys else loop.keys ++ [addr] }

/-- The body of the loop over a block's verifiers: a verifier without a deposit is skipped (after
`addrReward` is made), and the deposit info of each account is read once and kept in `depositeMap`. -/
def verifierStep (db : RewardDB Addr Hash) (loop : RewardLoop Addr) (addr : Addr) : Option (RewardLoop Addr) :=
  let (addrReward, loop) := loop.rewardCell addr
  match loop.depositeMap addr with
  | some info => some (loop.addReward addr addrReward info)
  | none => (getDepositInfo db addr loop).map fun
    | (none, loop) => loop
    | (some info, loop) =>
      { loop with depositeMap := Function.update loop.depositeMap addr (some info) }.addReward addr addrReward info

/-- The loop over a block's verifiers. -/
def rewardVerifiers (db : RewardDB Addr Hash) : List Addr → RewardLoop Addr → Option (RewardLoop Addr)
  | [], loop => some loop
  | addr :: rest, loop => (loop.verifierStep db addr).bind (rewardVerifiers db rest)

end RewardLoop

variable (zeroHash : Hash)

/-- `Sub` of `uint256`. -/
def sub256 (a b : ℕ) : ℕ := (a % u256 + (u256 - b % u256)) % u256

/-- The first loop of `buildRewards`, over the canonical blocks from `currentNr` down to `endNumber` in
`uint256`: `.ok none` is the `return nil, err` on a missing canonical hash, where `err` is nil. -/
def blockLoop (db : RewardDB Addr Hash) (endNumber : ℕ) :
    ℕ → ℕ → RewardLoop Addr → Option (Except RewardError (Option (RewardLoop Addr)))
  | 0, _, _ => none
  | fuel + 1, currentNr, loop =>
    if currentNr < endNumber then some (.ok (some loop))
    else
      let hash := db.canonicalHash (currentNr % u64)
      if hash = zeroHash then some (.ok none)
      else if !db.hasHeader (currentNr % u64) hash then some (.error .headerTypeAssert)
      else match db.verifiers (currentNr % u64) hash with
        | none => some (.error .blockTypeAssert)
        | some verifiers =>
          (RewardLoop.rewardVerifiers db verifiers loop).bind fun loop =>
            blockLoop db endNumber fuel (sub256 currentNr 1) loop

/-- `*rewardMap[addr]`: the value of an account's cell. -/
def RewardLoop.entry (loop : RewardLoop Addr) (addr : Addr) : ℕ :=
  match loop.rewardMap addr with
  | some ptr => loop.heap ptr
  | none => 0

/-- The second loop of `buildRewards` at one key: the entry plus the stored unpaid amount is paid when it
reaches `rewardLimit` and kept unpaid otherwise; the unpaid amount is written only when `setRewards`. -/
def settle (rewardLimit : ℕ) (setRewards : Bool) (loop : RewardLoop Addr)
    (acc : (Addr → Option ℕ) × (Addr → ℕ)) (addr : Addr) : (Addr → Option ℕ) × (Addr → ℕ) :=
  -- `getAccountRewardUnpaid` never returns nil: the sum is always taken
  let amount := (loop.entry addr + acc.2 addr) % u256
  let (payAmount, unpayAmount) := if rewardLimit ≤ amount then (amount, 0) else (0, amount)
  (Function.update acc.1 addr (some payAmount),
    if setRewards then Function.update acc.2 addr unpayAmount else acc.2)

/-- `number2epoch`: `DivMod` of `uint256`, which gives 0 for a zero divisor. -/
def number2epoch (rewardEpoch number : ℕ) : ℕ := if rewardEpoch = 0 then 0 else number / rewardEpoch

/-- `buildRewards(tx, number, setRewards)`: the paid amount of every key of `rewardMap`, its keys, and the
database after the writes of the reward table. -/
def buildRewards (fuel : ℕ) (db : RewardDB Addr Hash) (rewardLimit rewardEpoch number : ℕ) (setRewards : Bool) :
    Option (Except RewardError ((Addr → Option ℕ) × List Addr × RewardDB Addr Hash)) :=
  let epoch := number2epoch rewardEpoch number
  let endNumber := sub256 number rewardEpoch
  (blockLoop zeroHash db endNumber fuel (sub256 number 1) RewardLoop.empty).map fun
    | .error e => .error e
    | .ok none => .ok (fun _ => none, [], db)
    | .ok (some loop) =>
      let (pays, unpaid) := loop.keys.foldl (settle rewardLimit setRewards loop) (fun _ => none, db.unpaid)
      let db := { db with unpaid }
      -- `setRewardByEpochPaid` writes nothing for an empty map
      let db := if setRewards && !loop.keys.isEmpty then
          { db with epochPaid := Function.update db.epochPaid epoch (some pays) }
        else db
      .ok (pays, loop.keys, db)

/-- `Reward.SetRewards`: the accounts of `rewardMap` with their paid amounts. -/
def setRewardsList (fuel : ℕ) (db : RewardDB Addr Hash) (rewardLimit rewardEpoch number : ℕ)
    (setRewards : Bool) : Option (Except RewardError (List (Addr × ℕ) × RewardDB Addr Hash)) :=
  (buildRewards zeroHash fuel db rewardLimit rewardEpoch number setRewards).map fun
    | .error e => .error e
    | .ok (pays, keys, db) => .ok (keys.filterMap (fun addr => (pays addr).map (addr, ·)), db)

/-- The methods of the intra-block state `APos.Rewards` calls. -/
structure RewardState (σ Addr : Type) where
  exist : σ → Addr → Bool
  createAccount : σ → Addr → σ
  addBalance : σ → Addr → ℕ → σ

/-- `Mod` of `uint256`, which gives 0 for a zero divisor. -/
def mod256 (a b : ℕ) : ℕ := if b = 0 then 0 else a % b

/-- `APos.Rewards(tx, header, state, setRewards)` at a block number: at a multiple of `RewardEpoch` after
`BeijingBlock`, every account with a positive paid amount is created if it does not exist and credited; the
rewards of the block, the state and the database. -/
def rewards {σ : Type} (ops : RewardState σ Addr) (fuel : ℕ) (db : RewardDB Addr Hash)
    (beijingBlock rewardLimit rewardEpoch number : ℕ) (state : σ) (setRewards : Bool) :
    Option (Except RewardError (List (Addr × ℕ) × σ × RewardDB Addr Hash)) :=
  if mod256 (sub256 number beijingBlock) rewardEpoch = 0 then
    (setRewardsList zeroHash fuel db rewardLimit rewardEpoch number setRewards).map fun
      | .error e => .error e
      | .ok (accRewards, db) =>
        let (rewards, state) := accRewards.foldl (fun acc detail =>
          if 0 < detail.2 then
            let state := if ops.exist acc.2 detail.1 then acc.2 else ops.createAccount acc.2 detail.1
            (acc.1 ++ [detail], ops.addBalance state detail.1 detail.2)
          else acc) ([], state)
        .ok (rewards, state, db)
  else some (.ok ([], state, db))

/-! ### The value the first loop leaves -/

/-- What the first loop leaves in an account's entry after `c` listings at `RewardPerBlock` `p` and
`MaxRewardPerEpoch` `M`: the sum up to the cap; from the listing that crosses it on, the cap's own cell,
which holds `M` and gains `p` with each later listing. -/
def aliasedEarned (p M c : ℕ) : ℕ := if c * p ≤ M then c * p else M + (c - (M / p + 1)) * p

theorem aliasedEarned_of_le {p M c : ℕ} (h : c * p ≤ M) : aliasedEarned p M c = c * p := if_pos h

/-- The listing that crosses the cap leaves the cap. -/
theorem aliasedEarned_cross {p M c : ℕ} (h₁ : c * p ≤ M) (h₂ : M < (c + 1) * p) : aliasedEarned p M (c + 1) = M := by
  have hdiv : M / p = c := Nat.div_eq_of_lt_le h₁ h₂
  rw [aliasedEarned, if_neg (by omega), hdiv, Nat.sub_self, Nat.zero_mul, Nat.add_zero]

/-- Past the cap, every listing adds `p`. -/
theorem aliasedEarned_succ_of_lt {p M c : ℕ} (hp : 0 < p) (h : M < c * p) :
    aliasedEarned p M (c + 1) = aliasedEarned p M c + p := by
  have hdiv : M / p < c := (Nat.div_lt_iff_lt_mul hp).2 h
  have hc : M < (c + 1) * p := lt_of_lt_of_le h (Nat.mul_le_mul_right p (Nat.le_succ c))
  rw [aliasedEarned, aliasedEarned, if_neg (by omega), if_neg (by omega),
    show c + 1 - (M / p + 1) = c - (M / p + 1) + 1 by omega, Nat.succ_mul, Nat.add_assoc]

theorem aliasedEarned_le (p M c : ℕ) : aliasedEarned p M c ≤ M + c * p := by
  unfold aliasedEarned
  split
  · omega
  · have : (c - (M / p + 1)) * p ≤ c * p := Nat.mul_le_mul_right p (Nat.sub_le c _)
    omega

/-- Two listings past the cap, the entry is above what a cap would give. -/
theorem min_lt_aliasedEarned {p M c : ℕ} (hp : 0 < p) (hc : M / p + 2 ≤ c) : min (c * p) M < aliasedEarned p M c := by
  have hM : M < (M / p + 1) * p := by
    rw [Nat.succ_mul]
    exact Nat.lt_div_mul_add hp
  have hcM : M < c * p := lt_of_lt_of_le hM (Nat.mul_le_mul_right p (by omega))
  rw [aliasedEarned, if_neg (by omega), min_eq_right hcM.le]
  have : 0 < (c - (M / p + 1)) * p := Nat.mul_pos (by omega) hp
  omega

theorem depositTier_pos {depositEther p M : ℕ} (h : depositTier depositEther = some (p, M)) : 0 < p := by
  unfold depositTier at h
  split_ifs at h <;> simp only [Option.some.injEq, Prod.mk.injEq] at h <;> rw [← h.1] <;> decide

/-! ### The cells of an account -/

namespace RewardLoop

/-- The cells an account's entries point to: its `rewardMap` cell and the two cells of its deposit info. -/
def CellOf (loop : RewardLoop Addr) (addr : Addr) (c : ℕ) : Prop :=
  loop.rewardMap addr = some c ∨
    ∃ info, loop.depositeMap addr = some info ∧ (c = info.rewardPerBlock ∨ c = info.maxRewardPerEpoch)

/-- The invariant of the first loop: every cell of an account is allocated, no two accounts share one, an
entry comes with a deposit info, and the keys are the accounts with an entry, each once. -/
structure Separated (loop : RewardLoop Addr) : Prop where
  lt_alloc : ∀ addr c, loop.CellOf addr c → c < loop.alloc
  disjoint : ∀ a b c, loop.CellOf a c → loop.CellOf b c → a = b
  entry_info : ∀ addr ptr, loop.rewardMap addr = some ptr → (loop.depositeMap addr).isSome
  mem_keys : ∀ addr, addr ∈ loop.keys ↔ (loop.rewardMap addr).isSome
  keys_nodup : loop.keys.Nodup

/-- A cell that belongs to `addr` or to no account yet. -/
def Owned (loop : RewardLoop Addr) (addr : Addr) (c : ℕ) : Prop :=
  c < loop.alloc ∧ ∀ b, loop.CellOf b c → b = addr

/-- A step that leaves the entries of `v` and the values of its cells alone. -/
structure Frames (v : Addr) (loop loop' : RewardLoop Addr) : Prop where
  rewardMap_eq : loop'.rewardMap v = loop.rewardMap v
  depositeMap_eq : loop'.depositeMap v = loop.depositeMap v
  heap_eq : ∀ c, loop.CellOf v c → loop'.heap c = loop.heap c

theorem Frames.refl (v : Addr) (loop : RewardLoop Addr) : Frames v loop loop := ⟨rfl, rfl, fun _ _ => rfl⟩

theorem Frames.cellOf_iff {v : Addr} {loop loop' : RewardLoop Addr} (h : Frames v loop loop') (c : ℕ) :
    loop'.CellOf v c ↔ loop.CellOf v c := by
  rw [CellOf, CellOf, h.rewardMap_eq, h.depositeMap_eq]

theorem Frames.trans {v : Addr} {l₁ l₂ l₃ : RewardLoop Addr} (h₁ : Frames v l₁ l₂) (h₂ : Frames v l₂ l₃) :
    Frames v l₁ l₃ :=
  ⟨h₂.rewardMap_eq.trans h₁.rewardMap_eq, h₂.depositeMap_eq.trans h₁.depositeMap_eq,
    fun c hc => (h₂.heap_eq c ((h₁.cellOf_iff c).2 hc)).trans (h₁.heap_eq c hc)⟩

variable {loop : RewardLoop Addr}

@[simp] theorem cellOf_newInt (value : ℕ) (addr : Addr) (c : ℕ) :
    (loop.newInt value).2.CellOf addr c ↔ loop.CellOf addr c := Iff.rfl

@[simp] theorem newInt_fst (value : ℕ) : (loop.newInt value).1 = loop.alloc := rfl

@[simp] theorem newInt_alloc (value : ℕ) : (loop.newInt value).2.alloc = loop.alloc + 1 := rfl

@[simp] theorem newInt_heap (value : ℕ) :
    (loop.newInt value).2.heap = Function.update loop.heap loop.alloc value := rfl

@[simp] theorem newInt_rewardMap (value : ℕ) : (loop.newInt value).2.rewardMap = loop.rewardMap := rfl

@[simp] theorem newInt_depositeMap (value : ℕ) : (loop.newInt value).2.depositeMap = loop.depositeMap := rfl

@[simp] theorem newInt_keys (value : ℕ) : (loop.newInt value).2.keys = loop.keys := rfl

theorem Separated.newInt (hs : loop.Separated) (value : ℕ) : (loop.newInt value).2.Separated :=
  ⟨fun a c hc => Nat.lt_succ_of_lt (hs.lt_alloc a c hc), hs.disjoint, hs.entry_info, hs.mem_keys, hs.keys_nodup⟩

/-- A new cell is no account's. -/
theorem Separated.owned_newInt (hs : loop.Separated) (value : ℕ) (addr : Addr) :
    (loop.newInt value).2.Owned addr loop.alloc :=
  ⟨Nat.lt_succ_self _, fun b hb => absurd (hs.lt_alloc b _ hb) (Nat.lt_irrefl _)⟩

theorem Separated.frames_newInt (hs : loop.Separated) (value : ℕ) (v : Addr) : Frames v loop (loop.newInt value).2 :=
  ⟨rfl, rfl, fun c hc => Function.update_of_ne (Nat.ne_of_lt (hs.lt_alloc v c hc)) _ _⟩

theorem Owned.newInt {addr : Addr} {c : ℕ} (h : loop.Owned addr c) (value : ℕ) :
    (loop.newInt value).2.Owned addr c :=
  ⟨Nat.lt_succ_of_lt h.1, h.2⟩

/-! ### The steps of the first loop keep the cells apart -/

/-- The cells of an account that `addReward` writes, and of no other. -/
theorem cellOf_addReward_of_ne {a b : Addr} (hb : b ≠ a) (ptr : ℕ) (info : InfoRef) (c : ℕ) :
    (loop.addReward a ptr info).CellOf b c ↔ loop.CellOf b c := by
  simp only [CellOf, addReward, Function.update_of_ne hb]

theorem cellOf_addReward_self {a : Addr} {ptr : ℕ} {info : InfoRef} (hinfo : loop.depositeMap a = some info)
    {c : ℕ} (hc : (loop.addReward a ptr info).CellOf a c) : c = ptr ∨ loop.CellOf a c := by
  rcases hc with hc | hc
  · simp only [addReward, Function.update_self, Option.some.injEq] at hc
    split_ifs at hc
    · exact Or.inr (Or.inr ⟨info, hinfo, Or.inr hc.symm⟩)
    · exact Or.inl hc.symm
  · exact Or.inr (Or.inr hc)

theorem Separated.addReward (hs : loop.Separated) {a : Addr} {ptr : ℕ} {info : InfoRef}
    (hinfo : loop.depositeMap a = some info) (hptr : loop.Owned a ptr) : (loop.addReward a ptr info).Separated := by
  -- the cells of `a` after the step are `ptr` and its old cells; the other accounts keep theirs
  have hcell : ∀ b c, (loop.addReward a ptr info).CellOf b c → (b = a ∧ c = ptr) ∨ loop.CellOf b c := by
    intro b c hc
    by_cases hb : b = a
    · subst hb
      exact (cellOf_addReward_self hinfo hc).imp_left fun h => ⟨rfl, h⟩
    · exact Or.inr ((cellOf_addReward_of_ne hb ptr info c).1 hc)
  refine ⟨fun b c hc => ?_, fun b b' c hc hc' => ?_, fun b p hp => ?_, fun b => ?_, ?_⟩
  · rcases hcell b c hc with ⟨-, rfl⟩ | hc
    · exact hptr.1
    · exact hs.lt_alloc b c hc
  · rcases hcell b c hc with ⟨rfl, hcp⟩ | hcb <;> rcases hcell b' c hc' with ⟨rfl, hcp'⟩ | hcb'
    · rfl
    · exact (hptr.2 b' (hcp ▸ hcb')).symm
    · exact hptr.2 b (hcp' ▸ hcb)
    · exact hs.disjoint b b' c hcb hcb'
  · by_cases hb : b = a
    · subst hb
      simp [RewardLoop.addReward, hinfo]
    · simp only [RewardLoop.addReward, Function.update_of_ne hb] at hp ⊢
      exact hs.entry_info b p hp
  · by_cases hb : b = a
    · subst hb
      by_cases hk : (loop.rewardMap b).isSome <;> simp [RewardLoop.addReward, hk, (hs.mem_keys b).2]
    · simp only [RewardLoop.addReward, Function.update_of_ne hb]
      split_ifs <;> simp [hs.mem_keys b, hb]
  · simp only [RewardLoop.addReward]
    split_ifs with hk
    · exact hs.keys_nodup
    · refine hs.keys_nodup.append (List.nodup_singleton a) ?_
      simp only [List.disjoint_singleton]
      exact fun hmem => hk ((hs.mem_keys a).1 hmem)

theorem frames_addReward {a v : Addr} (hv : v ≠ a) {ptr : ℕ} (info : InfoRef)
    (hptr : loop.Owned a ptr) : Frames v loop (loop.addReward a ptr info) :=
  ⟨by simp [RewardLoop.addReward, Function.update_of_ne hv], rfl, fun c hc => by
    have hne : c ≠ ptr := fun h => hv (hptr.2 v (h ▸ hc))
    simp [RewardLoop.addReward, Function.update_of_ne hne]⟩

@[simp] theorem rewardCell_of_some {addr : Addr} {ptr : ℕ} (h : loop.rewardMap addr = some ptr) :
    loop.rewardCell addr = (ptr, loop) := by
  simp [rewardCell, h]

@[simp] theorem rewardCell_of_none {addr : Addr} (h : loop.rewardMap addr = none) :
    loop.rewardCell addr = loop.newInt 0 := by
  simp [rewardCell, h]

/-- `addrReward` is the account's own cell or a new one, and making it changes no entry. -/
theorem Separated.rewardCell (hs : loop.Separated) (addr : Addr) :
    (loop.rewardCell addr).2.Separated ∧ (loop.rewardCell addr).2.Owned addr (loop.rewardCell addr).1 ∧
      (∀ v, Frames v loop (loop.rewardCell addr).2) ∧ (loop.rewardCell addr).2.rewardMap = loop.rewardMap ∧
      (loop.rewardCell addr).2.depositeMap = loop.depositeMap := by
  rcases h : loop.rewardMap addr with _ | ptr
  · rw [rewardCell_of_none h]
    exact ⟨hs.newInt 0, hs.owned_newInt 0 addr, hs.frames_newInt 0, rfl, rfl⟩
  · rw [rewardCell_of_some h]
    have hcell : loop.CellOf addr ptr := Or.inl h
    exact ⟨hs, ⟨hs.lt_alloc addr ptr hcell, fun b hb => hs.disjoint b addr ptr hb hcell⟩, (Frames.refl · loop),
      rfl, rfl⟩

theorem getDepositInfo_of_none {db : RewardDB Addr Hash} {addr : Addr} (h : db.deposits addr = none) :
    getDepositInfo db addr loop = some (none, loop) := by
  simp [getDepositInfo, h]

/-- A deposit of a tier gets two new cells, holding the tier's rewards. -/
theorem getDepositInfo_of_tier {db : RewardDB Addr Hash} {addr : Addr} {depositAmount p M : ℕ}
    (h : db.deposits addr = some depositAmount) (ht : depositTier (depositAmount / amt % u64) = some (p, M)) :
    getDepositInfo db addr loop =
      some (some ⟨loop.alloc, loop.alloc + 1⟩, ((loop.newInt p).2.newInt M).2) := by
  simp [getDepositInfo, h, ht]

/-- Recording a deposit info of new cells for an account without one. -/
theorem Separated.withInfo (hs : loop.Separated) (addr : Addr) (hnone : loop.depositeMap addr = none)
    (info : InfoRef) (hfresh : ∀ c, c = info.rewardPerBlock ∨ c = info.maxRewardPerEpoch → c < loop.alloc ∧
      ∀ b, ¬ loop.CellOf b c) :
    ({ loop with depositeMap := Function.update loop.depositeMap addr (some info) } : RewardLoop Addr).Separated ∧
      (∀ c, loop.Owned addr c → ({ loop with depositeMap := Function.update loop.depositeMap addr (some info) } :
        RewardLoop Addr).Owned addr c) ∧
      ∀ v, v ≠ addr → Frames v loop { loop with depositeMap := Function.update loop.depositeMap addr (some info) } := by
  -- the account gains the two new cells; every other account keeps its cells
  have hcell : ∀ b c, ({ loop with depositeMap := Function.update loop.depositeMap addr (some info) } :
      RewardLoop Addr).CellOf b c → (b = addr ∧ (c = info.rewardPerBlock ∨ c = info.maxRewardPerEpoch)) ∨
        loop.CellOf b c := by
    rintro b c (hc | ⟨i, hi, hc⟩)
    · exact Or.inr (Or.inl hc)
    · by_cases hb : b = addr
      · subst hb
        simp only [Function.update_self, Option.some.injEq] at hi
        exact Or.inl ⟨rfl, hi ▸ hc⟩
      · simp only [Function.update_of_ne hb] at hi
        exact Or.inr (Or.inr ⟨i, hi, hc⟩)
  refine ⟨⟨fun b c hc => ?_, fun b b' c hc hc' => ?_, fun b ptr hp => ?_, hs.mem_keys, hs.keys_nodup⟩,
    fun c hc => ⟨hc.1, fun b hb => ?_⟩, fun v hv => ⟨rfl, Function.update_of_ne hv _ _, fun _ _ => rfl⟩⟩
  · rcases hcell b c hc with ⟨-, hc⟩ | hc
    · exact (hfresh c hc).1
    · exact hs.lt_alloc b c hc
  · rcases hcell b c hc with ⟨rfl, hcb⟩ | hcb <;> rcases hcell b' c hc' with ⟨rfl, hcb'⟩ | hcb'
    · rfl
    · exact absurd hcb' ((hfresh c hcb).2 b')
    · exact absurd hcb ((hfresh c hcb').2 b)
    · exact hs.disjoint b b' c hcb hcb'
  · by_cases hb : b = addr
    · subst hb
      simp
    · simp only [Function.update_of_ne hb]
      exact hs.entry_info b ptr hp
  · rcases hcell b c hb with ⟨rfl, hcb⟩ | hcb
    · rfl
    · exact hc.2 b hcb

/-- Every step of the first loop keeps the cells apart and leaves the other accounts alone; it fails only on
a deposit of no tier. -/
theorem Separated.verifierStep (hs : loop.Separated) (db : RewardDB Addr Hash) (addr : Addr)
    (htier : ∀ depositAmount, db.deposits addr = some depositAmount →
      (depositTier (depositAmount / amt % u64)).isSome) :
    ∃ loop', loop.verifierStep db addr = some loop' ∧ loop'.Separated ∧ ∀ v, v ≠ addr → Frames v loop loop' := by
  obtain ⟨hs₁, hown, hfr₁, -, hdm⟩ := hs.rewardCell addr
  unfold RewardLoop.verifierStep
  generalize loop.rewardCell addr = r at hs₁ hown hfr₁ hdm
  obtain ⟨addrReward, loop₁⟩ := r
  dsimp only at hs₁ hown hfr₁ hdm ⊢
  rcases hd : loop₁.depositeMap addr with _ | info
  · rcases hdep : db.deposits addr with _ | depositAmount
    · -- a verifier without a deposit is skipped
      exact ⟨loop₁, by simp [getDepositInfo_of_none hdep], hs₁, fun v _ => hfr₁ v⟩
    · obtain ⟨⟨p, M⟩, ht⟩ := Option.isSome_iff_exists.1 (htier depositAmount hdep)
      -- the deposit info is read into two new cells, then recorded
      set loop₂ := ((loop₁.newInt p).2.newInt M).2 with hl₂
      have hs₂ : loop₂.Separated := (hs₁.newInt p).newInt M
      have hfresh : ∀ c, c = loop₁.alloc ∨ c = loop₁.alloc + 1 → c < loop₂.alloc ∧ ∀ b, ¬ loop₂.CellOf b c := by
        intro c hc
        refine ⟨by rcases hc with rfl | rfl <;> simp [loop₂], fun b hb => ?_⟩
        have := hs₁.lt_alloc b c (by simpa [loop₂] using hb)
        omega
      obtain ⟨hs₃, hown₃, hfr₃⟩ := hs₂.withInfo addr (by simp [loop₂, hd]) ⟨loop₁.alloc, loop₁.alloc + 1⟩ hfresh
      have hown₂ := hown₃ _ ((hown.newInt p).newInt M)
      refine ⟨_, by rw [getDepositInfo_of_tier hdep ht]; rfl, hs₃.addReward (Function.update_self ..) hown₂,
        fun v hv => ?_⟩
      exact (hfr₁ v).trans (((hs₁.frames_newInt p v).trans ((hs₁.newInt p).frames_newInt M v)).trans
        ((hfr₃ v hv).trans (frames_addReward hv _ hown₂)))
  · exact ⟨_, rfl, hs₁.addReward hd hown, fun v hv => (hfr₁ v).trans (frames_addReward hv info hown)⟩

/-! ### Where the first loop leaves a depositor -/

/-- Where the first loop leaves an account listed `c` times, `c > 0`, whose deposit has `RewardPerBlock` `p`
and `MaxRewardPerEpoch` `M`: its deposit info and its entry, whose cell holds `aliasedEarned p M c`; a cell of
its own up to the cap, and the cell of `MaxRewardPerEpoch` past it. -/
structure TracksAt (loop : RewardLoop Addr) (v : Addr) (p M c : ℕ) (info : InfoRef) (ptr : ℕ) : Prop where
  depositeMap_eq : loop.depositeMap v = some info
  rewardMap_eq : loop.rewardMap v = some ptr
  info_ne : info.rewardPerBlock ≠ info.maxRewardPerEpoch
  ptr_ne : ptr ≠ info.rewardPerBlock
  heap_rewardPerBlock : loop.heap info.rewardPerBlock = p
  heap_ptr : loop.heap ptr = aliasedEarned p M c
  below : c * p ≤ M → ptr ≠ info.maxRewardPerEpoch ∧ loop.heap info.maxRewardPerEpoch = M
  above : M < c * p → ptr = info.maxRewardPerEpoch

/-- Where the first loop leaves an account listed `c` times: no entry and no deposit info before its first
listing. -/
def Tracks (loop : RewardLoop Addr) (v : Addr) (p M : ℕ) : ℕ → Prop
  | 0 => loop.rewardMap v = none ∧ loop.depositeMap v = none
  | c + 1 => ∃ info ptr, loop.TracksAt v p M (c + 1) info ptr

theorem TracksAt.frames {v : Addr} {loop' : RewardLoop Addr} {p M c : ℕ} {info : InfoRef} {ptr : ℕ}
    (h : loop.TracksAt v p M c info ptr) (hf : Frames v loop loop') : loop'.TracksAt v p M c info ptr := by
  have hptr : loop.CellOf v ptr := Or.inl h.rewardMap_eq
  have hmax : loop.CellOf v info.maxRewardPerEpoch := Or.inr ⟨info, h.depositeMap_eq, Or.inr rfl⟩
  have hper : loop.CellOf v info.rewardPerBlock := Or.inr ⟨info, h.depositeMap_eq, Or.inl rfl⟩
  refine ⟨hf.depositeMap_eq ▸ h.depositeMap_eq, hf.rewardMap_eq ▸ h.rewardMap_eq, h.info_ne, h.ptr_ne,
    (hf.heap_eq _ hper).trans h.heap_rewardPerBlock, (hf.heap_eq _ hptr).trans h.heap_ptr,
    fun hc => ?_, h.above⟩
  exact ⟨(h.below hc).1, (hf.heap_eq _ hmax).trans (h.below hc).2⟩

/-- The steps at the other accounts leave a depositor where it is. -/
theorem Tracks.frames {v : Addr} {loop' : RewardLoop Addr} {p M : ℕ} (hf : Frames v loop loop') :
    ∀ {c}, loop.Tracks v p M c → loop'.Tracks v p M c
  | 0, h => ⟨hf.rewardMap_eq ▸ h.1, hf.depositeMap_eq ▸ h.2⟩
  | _ + 1, ⟨info, ptr, h⟩ => ⟨info, ptr, h.frames hf⟩

/-- The first listing of a depositor: a new cell takes `RewardPerBlock`, and the entry is that cell, or the
cap's cell when `RewardPerBlock` is above the cap. -/
theorem Tracks.verifierStep_first {db : RewardDB Addr Hash} {v : Addr} {depositAmount p M : ℕ}
    (hv : db.deposits v = some depositAmount) (ht : depositTier (depositAmount / amt % u64) = some (p, M))
    (hsmall : p < u256) (htr : loop.Tracks v p M 0) :
    ∃ loop', loop.verifierStep db v = some loop' ∧ loop'.Tracks v p M 1 := by
  obtain ⟨hnone, hdnone⟩ := htr
  -- the cells: `addrReward` at `alloc`, then the deposit info at `alloc + 1` and `alloc + 2`
  let l₂ := (((loop.newInt 0).2.newInt p).2.newInt M).2
  let info : InfoRef := ⟨loop.alloc + 1, loop.alloc + 1 + 1⟩
  let l₃ := ({ l₂ with depositeMap := Function.update l₂.depositeMap v (some info) } : RewardLoop Addr).addReward
    v loop.alloc info
  have hstep : loop.verifierStep db v = some l₃ := by
    unfold RewardLoop.verifierStep
    rw [rewardCell_of_none hnone]
    simp only [newInt_depositeMap, hdnone, getDepositInfo_of_tier hv ht, Option.map_some, newInt_alloc, newInt_fst]
    rfl
  have hheap : ∀ c, l₃.heap c = if c = loop.alloc then p else if c = loop.alloc + 1 then p
      else if c = loop.alloc + 1 + 1 then M else loop.heap c := by
    intro c
    simp only [l₃, l₂, info, RewardLoop.addReward, newInt_heap, newInt_alloc, Function.update_apply]
    split_ifs <;> first | omega | simp [Nat.mod_eq_of_lt hsmall]
  have hne₁ : loop.alloc + 1 ≠ loop.alloc := by omega
  have hne₂ : loop.alloc + 1 + 1 ≠ loop.alloc := by omega
  have hne₃ : loop.alloc + 1 + 1 ≠ loop.alloc + 1 := by omega
  have hmap : l₃.rewardMap v = some (if M < p then loop.alloc + 1 + 1 else loop.alloc) := by
    have h : l₃.rewardMap v = some (if l₃.heap (loop.alloc + 1 + 1) < l₃.heap loop.alloc then loop.alloc + 1 + 1
        else loop.alloc) := by
      simp [l₃, RewardLoop.addReward, info]
    rw [h, hheap, hheap]
    simp [hne₂]
  refine ⟨l₃, hstep, info, _, ⟨by simp [l₃, RewardLoop.addReward], hmap, by simp [info], ?_,
    by simp [hheap, info], ?_, fun h => ?_, fun h => ?_⟩⟩
  · split_ifs
    exacts [hne₃, hne₁.symm]
  · by_cases hcap : M < p
    · rw [if_pos hcap, hheap, if_neg hne₂, if_neg hne₃, if_pos rfl, aliasedEarned_cross (c := 0) (by omega) (by omega)]
    · rw [if_neg hcap, hheap, if_pos rfl, aliasedEarned_of_le (c := 1) (by omega), Nat.one_mul]
  · have hcap : ¬ M < p := by rw [Nat.one_mul] at h; omega
    exact ⟨by simp [hcap, info, hne₂.symm], by simp [hheap, info, hne₂]⟩
  · have hcap : M < p := by rw [Nat.one_mul] at h; omega
    simp [hcap, info]

/-- A later listing adds `RewardPerBlock` to the entry's cell in place: the entry moves to the cap's cell
when the sum crosses the cap, and from then on the cap's cell itself grows. -/
theorem TracksAt.verifierStep {v : Addr} {p M c : ℕ} {info : InfoRef} {ptr : ℕ}
    (h : loop.TracksAt v p M (c + 1) info ptr) (db : RewardDB Addr Hash) (hp : 0 < p) (hsmall : M + (c + 1 + 1) * p < u256) :
    loop.verifierStep db v = some (loop.addReward v ptr info) ∧
      ∃ ptr', (loop.addReward v ptr info).TracksAt v p M (c + 1 + 1) info ptr' := by
  refine ⟨by simp [RewardLoop.verifierStep, rewardCell_of_some h.rewardMap_eq, h.depositeMap_eq], ?_⟩
  have hmul : (c + 1 + 1) * p = (c + 1) * p + p := Nat.succ_mul _ _
  -- the entry's cell gains `p`, without wrapping
  have hsum : (loop.heap ptr + loop.heap info.rewardPerBlock) % u256 = aliasedEarned p M (c + 1) + p := by
    rw [h.heap_ptr, h.heap_rewardPerBlock, Nat.mod_eq_of_lt]
    have := aliasedEarned_le p M (c + 1)
    omega
  have hheap : ∀ x, (loop.addReward v ptr info).heap x = if x = ptr then aliasedEarned p M (c + 1) + p
      else loop.heap x := by
    intro x
    simp only [RewardLoop.addReward, Function.update_apply, hsum]
  have hmap : (loop.addReward v ptr info).rewardMap v = some (if (loop.addReward v ptr info).heap
      info.maxRewardPerEpoch < (loop.addReward v ptr info).heap ptr then info.maxRewardPerEpoch else ptr) := by
    simp [RewardLoop.addReward]
  have hper : (loop.addReward v ptr info).heap info.rewardPerBlock = p := by
    rw [hheap, if_neg h.ptr_ne.symm, h.heap_rewardPerBlock]
  by_cases hbelow : (c + 1) * p ≤ M
  · obtain ⟨hptr, hmax⟩ := h.below hbelow
    have hmax' : (loop.addReward v ptr info).heap info.maxRewardPerEpoch = M := by
      rw [hheap, if_neg hptr.symm, hmax]
    rw [hmax', hheap, if_pos rfl, aliasedEarned_of_le hbelow, ← hmul] at hmap
    by_cases hcross : M < (c + 1 + 1) * p
    · -- the sum crosses the cap: `Min256` returns the cap's pointer
      rw [if_pos hcross] at hmap
      refine ⟨_, ⟨h.depositeMap_eq, hmap, h.info_ne, h.info_ne.symm, hper, ?_, fun hc => absurd hc (by omega),
        fun _ => rfl⟩⟩
      rw [hmax', aliasedEarned_cross hbelow hcross]
    · rw [if_neg hcross] at hmap
      refine ⟨_, ⟨h.depositeMap_eq, hmap, h.info_ne, h.ptr_ne, hper, ?_, fun _ => ⟨hptr, hmax'⟩,
        fun hc => absurd hc hcross⟩⟩
      rw [hheap, if_pos rfl, aliasedEarned_of_le hbelow, aliasedEarned_of_le (by omega), hmul]
  · -- past the cap the entry is the cap's cell, which gains `p` and stays the entry
    have habove : M < (c + 1) * p := by omega
    have hptr := h.above habove
    rw [← hptr, if_neg (lt_irrefl _)] at hmap
    refine ⟨_, ⟨h.depositeMap_eq, hmap, h.info_ne, h.ptr_ne, hper, ?_, fun hc => absurd hc (by omega),
      fun _ => hptr⟩⟩
    rw [hheap, if_pos rfl, aliasedEarned_succ_of_lt hp habove]

/-- A listing of the depositor moves it one listing on. -/
theorem Tracks.verifierStep {db : RewardDB Addr Hash} {v : Addr} {depositAmount p M c : ℕ}
    (hv : db.deposits v = some depositAmount) (ht : depositTier (depositAmount / amt % u64) = some (p, M))
    (hsmall : M + (c + 1) * p < u256) (htr : loop.Tracks v p M c) :
    ∃ loop', loop.verifierStep db v = some loop' ∧ loop'.Tracks v p M (c + 1) := by
  cases c with
  | zero => exact Tracks.verifierStep_first hv ht (by omega) htr
  | succ c =>
    obtain ⟨info, ptr, h⟩ := htr
    obtain ⟨hstep, ptr', h'⟩ := h.verifierStep db (depositTier_pos ht) hsmall
    exact ⟨_, hstep, info, ptr', h'⟩

section Run

variable {db : RewardDB Addr Hash} {v : Addr} {depositAmount p M : ℕ}
  (hv : db.deposits v = some depositAmount) (ht : depositTier (depositAmount / amt % u64) = some (p, M))
  (htier : ∀ addr depositAmount, db.deposits addr = some depositAmount →
    (depositTier (depositAmount / amt % u64)).isSome)

include hv ht htier in
/-- The loop over a block's verifiers keeps the cells apart, and moves the depositor on by its listings. -/
theorem rewardVerifiers_tracks : ∀ (verifiers : List Addr) {loop : RewardLoop Addr} {c : ℕ}, loop.Separated →
    loop.Tracks v p M c → M + (c + verifiers.count v) * p < u256 →
      ∃ loop', rewardVerifiers db verifiers loop = some loop' ∧ loop'.Separated ∧
        loop'.Tracks v p M (c + verifiers.count v)
  | [], loop, c, hs, htr, _ => ⟨loop, rfl, hs, htr⟩
  | addr :: rest, loop, c, hs, htr, hsmall => by
    obtain ⟨loop₁, hstep, hs₁, hfr⟩ := hs.verifierStep db addr (htier addr)
    have hcount : (addr :: rest).count v = rest.count v + if addr = v then 1 else 0 := by
      simp [List.count_cons]
    -- the step at `addr` moves the depositor on when it is `addr` and leaves it alone otherwise
    have htr₁ : loop₁.Tracks v p M (c + if addr = v then 1 else 0) := by
      by_cases hav : addr = v
      · subst hav
        have hle : (c + 1) * p ≤ (c + (rest.count addr + 1)) * p := Nat.mul_le_mul_right _ (by omega)
        obtain ⟨loop', hstep', htr'⟩ := htr.verifierStep hv ht (by rw [hcount, if_pos rfl] at hsmall; omega)
        rw [hstep', Option.some.injEq] at hstep
        rw [if_pos rfl, ← hstep]
        exact htr'
      · rw [if_neg hav, Nat.add_zero]
        exact htr.frames (hfr v (Ne.symm hav))
    obtain ⟨loop', hrun, hs', htr'⟩ := rewardVerifiers_tracks rest hs₁ htr₁
      (by rwa [hcount, ← Nat.add_assoc, Nat.add_right_comm] at hsmall)
    refine ⟨loop', by simp only [rewardVerifiers, hstep, Option.bind_some, hrun], hs', ?_⟩
    rwa [hcount, ← Nat.add_assoc, Nat.add_right_comm]

end Run

end RewardLoop

/-! ### The two loops of `buildRewards` -/

theorem sub256_of_le {a b : ℕ} (hb : b ≤ a) (ha : a < u256) : sub256 a b = a - b := by
  unfold sub256
  rw [Nat.mod_eq_of_lt ha, Nat.mod_eq_of_lt (show b < u256 by omega), show a + (u256 - b) = a - b + u256 by omega,
    Nat.add_mod_right, Nat.mod_eq_of_lt (by omega)]

/-- What the second loop pays an account of `rewardMap` and leaves unpaid, from its entry and its stored
unpaid amount. -/
def payOf (rewardLimit : ℕ) (amount : ℕ) : ℕ := if rewardLimit ≤ amount then amount else 0

/-- The second loop at a key listed once: the key's paid and unpaid amounts come from its own entry and
its stored unpaid amount alone. -/
theorem foldl_settle (rewardLimit : ℕ) (setRewards : Bool) (loop : RewardLoop Addr) {v : Addr} {keys : List Addr}
    (hv : keys.count v = 1) (init : (Addr → Option ℕ) × (Addr → ℕ)) :
    ((keys.foldl (settle rewardLimit setRewards loop) init).1 v,
        (keys.foldl (settle rewardLimit setRewards loop) init).2 v) =
      (some (payOf rewardLimit ((loop.entry v + init.2 v) % u256)),
        if setRewards then (loop.entry v + init.2 v) % u256 - payOf rewardLimit ((loop.entry v + init.2 v) % u256)
        else init.2 v) := by
  refine ListFold.foldl_proj_of_count_one (fun acc => (acc.1 v, acc.2 v))
    (fun q => (some (payOf rewardLimit ((loop.entry v + q.2) % u256)),
      if setRewards then (loop.entry v + q.2) % u256 - payOf rewardLimit ((loop.entry v + q.2) % u256) else q.2))
    (fun acc b hb => ?_) (fun acc => ?_) init hv
  · -- a step at another key writes only that key
    simp only [settle]
    split_ifs <;> simp [Function.update_of_ne hb.symm]
  · simp only [settle, payOf]
    split_ifs <;> simp_all

section Window

variable {db : RewardDB Addr Hash} {v : Addr} {depositAmount p M : ℕ}
  (hv : db.deposits v = some depositAmount) (ht : depositTier (depositAmount / amt % u64) = some (p, M))
  (htier : ∀ addr depositAmount, db.deposits addr = some depositAmount →
    (depositTier (depositAmount / amt % u64)).isSome)
  {endNumber number : ℕ} (vs : ℕ → List Addr) (hend : 0 < endNumber) (hnumber : number < u64)
  (hwindow : ∀ k, endNumber ≤ k → k < number → db.canonicalHash k ≠ zeroHash ∧
    db.hasHeader k (db.canonicalHash k) = true ∧ db.verifiers k (db.canonicalHash k) = some (vs k))

include hv ht htier hend hnumber hwindow in
/-- The first loop with the `j` canonical blocks from `endNumber` on left: it ends past the window, with
the cells apart and the depositor moved on by its listings in those blocks. -/
theorem blockLoop_tracks : ∀ (j fuel : ℕ) {loop : RewardLoop Addr} {c : ℕ}, endNumber + j ≤ number →
    j < fuel → loop.Separated → loop.Tracks v p M c →
      M + (c + ∑ k ∈ Finset.Ico endNumber (endNumber + j), (vs k).count v) * p < u256 →
      ∃ loop', blockLoop zeroHash db endNumber fuel (endNumber + j - 1) loop = some (.ok (some loop')) ∧
        loop'.Separated ∧ loop'.Tracks v p M (c + ∑ k ∈ Finset.Ico endNumber (endNumber + j), (vs k).count v)
  | _, 0, _, _, _, hfuel, _, _, _ => absurd hfuel (Nat.not_lt_zero _)
  | 0, fuel + 1, loop, c, _, _, hs, htr, _ => ⟨loop, by simp [blockLoop, show endNumber - 1 < endNumber by omega], hs,
      by simpa using htr⟩
  | j + 1, fuel + 1, loop, c, hj, hfuel, hs, htr, hsmall => by
    -- the block at `endNumber + j` is canonical and stored, below `2 ^ 64`
    obtain ⟨hhash, hheader, hblock⟩ := hwindow (endNumber + j) (by omega) (by omega)
    have hmod : (endNumber + j) % u64 = endNumber + j := Nat.mod_eq_of_lt (by omega)
    have hsum := Finset.sum_Ico_succ_top (show endNumber ≤ endNumber + j by omega) fun k => (vs k).count v
    rw [← Nat.add_assoc, hsum] at hsmall ⊢
    have hle : (c + (vs (endNumber + j)).count v) * p ≤
        (c + (∑ k ∈ Finset.Ico endNumber (endNumber + j), (vs k).count v + (vs (endNumber + j)).count v)) * p :=
      Nat.mul_le_mul_right _ (by omega)
    obtain ⟨loop₁, hrun, hs₁, htr₁⟩ := RewardLoop.rewardVerifiers_tracks hv ht htier (vs (endNumber + j)) hs htr
      (by omega)
    obtain ⟨loop', hloop, hs', htr'⟩ := blockLoop_tracks j fuel (by omega) (by omega) hs₁ htr₁
      (by rwa [Nat.add_assoc, Nat.add_comm ((vs (endNumber + j)).count v)])
    refine ⟨loop', ?_, hs', by rwa [Nat.add_assoc, Nat.add_comm ((vs (endNumber + j)).count v)] at htr'⟩
    rw [show endNumber + j + 1 - 1 = endNumber + j by omega, blockLoop, if_neg (by omega), hmod, if_neg hhash,
      hheader, hblock]
    simp only [Bool.not_true, Bool.false_eq_true, ↓reduceIte, hrun, Option.bind_some,
      sub256_of_le (show 1 ≤ endNumber + j by omega) (by unfold u256; unfold u64 at hnumber; omega)]
    exact hloop

theorem separated_empty : (RewardLoop.empty : RewardLoop Addr).Separated :=
  ⟨fun _ _ h => by simp [RewardLoop.CellOf, RewardLoop.empty] at h, fun _ _ _ h => by
    simp [RewardLoop.CellOf, RewardLoop.empty] at h, fun _ _ h => by simp [RewardLoop.empty] at h,
    fun _ => by simp [RewardLoop.empty], List.nodup_nil⟩

/-- The epoch reward of a depositor listed in the window: `buildRewards` pays it its entry, which the
aliasing of `Min256` makes `aliasedEarned` of its listings, plus its stored unpaid amount once the sum
reaches `RewardLimit`, and keeps the sum unpaid otherwise.  Up to the first listing past the cap this is
the capped sum; from the second one on every listing adds `RewardPerBlock` again (`min_lt_aliasedEarned`). -/
theorem buildRewards_pays_aliased (db : RewardDB Addr Hash) (rewardLimit rewardEpoch number : ℕ)
    (setRewards : Bool) (vs : ℕ → List Addr) (hepoch : rewardEpoch < number) (hnumber : number < u64)
    (hwindow : ∀ k, number - rewardEpoch ≤ k → k < number → db.canonicalHash k ≠ zeroHash ∧
      db.hasHeader k (db.canonicalHash k) = true ∧ db.verifiers k (db.canonicalHash k) = some (vs k))
    (htier : ∀ addr depositAmount, db.deposits addr = some depositAmount →
      (depositTier (depositAmount / amt % u64)).isSome)
    (v : Addr) {depositAmount p M : ℕ} (hv : db.deposits v = some depositAmount)
    (ht : depositTier (depositAmount / amt % u64) = some (p, M))
    (hlisted : 0 < ∑ k ∈ Finset.Ico (number - rewardEpoch) number, (vs k).count v)
    (hsmall : M + (∑ k ∈ Finset.Ico (number - rewardEpoch) number, (vs k).count v) * p + db.unpaid v < u256)
    (fuel : ℕ) (hfuel : rewardEpoch < fuel) :
    let earned := aliasedEarned p M (∑ k ∈ Finset.Ico (number - rewardEpoch) number, (vs k).count v)
    ∃ pays keys db', buildRewards zeroHash fuel db rewardLimit rewardEpoch number setRewards =
        some (.ok (pays, keys, db')) ∧ pays v = some (payOf rewardLimit (earned + db.unpaid v)) ∧
      db'.unpaid v = if setRewards then earned + db.unpaid v - payOf rewardLimit (earned + db.unpaid v)
        else db.unpaid v := by
  intro earned
  simp only [earned]
  have hu : number < u256 := by unfold u256; unfold u64 at hnumber; omega
  -- the first loop runs over the window from `number - 1` down to `number - rewardEpoch`
  have hstart : sub256 number 1 = number - rewardEpoch + rewardEpoch - 1 := by
    rw [sub256_of_le (by omega) hu]
    omega
  obtain ⟨loop, hloop, hs, htr⟩ := blockLoop_tracks zeroHash hv ht htier vs (by omega) hnumber hwindow rewardEpoch fuel
    (by omega) hfuel separated_empty (show (RewardLoop.empty : RewardLoop Addr).Tracks v p M 0 from ⟨rfl, rfl⟩)
    (by rw [Nat.zero_add, Nat.sub_add_cancel hepoch.le]; omega)
  rw [Nat.zero_add, Nat.sub_add_cancel hepoch.le] at htr
  generalize hcount : ∑ k ∈ Finset.Ico (number - rewardEpoch) number, (vs k).count v = count at htr hsmall hlisted ⊢
  -- the depositor has an entry, whose cell holds its earned amount
  obtain ⟨c, hc⟩ : ∃ c, count = c + 1 := ⟨count - 1, by omega⟩
  rw [hc] at htr
  obtain ⟨info, ptr, h⟩ := htr
  have hentry : loop.entry v = aliasedEarned p M count := by
    simp only [RewardLoop.entry, h.rewardMap_eq]
    rw [h.heap_ptr, ← hc]
  have hkeys : loop.keys.count v = 1 :=
    List.count_eq_one_of_mem hs.keys_nodup ((hs.mem_keys v).2 (by simp [h.rewardMap_eq]))
  have hamount : (loop.entry v + db.unpaid v) % u256 = aliasedEarned p M count + db.unpaid v := by
    have := aliasedEarned_le p M count
    rw [hentry, Nat.mod_eq_of_lt (by omega)]
  have hfold := foldl_settle rewardLimit setRewards loop hkeys (fun _ => none, db.unpaid)
  simp only [Prod.mk.injEq, hamount] at hfold
  -- the database after the writes of the reward table
  let r := loop.keys.foldl (settle rewardLimit setRewards loop) (fun _ => none, db.unpaid)
  let db' : RewardDB Addr Hash := if setRewards && !loop.keys.isEmpty then
      { db with unpaid := r.2, epochPaid := Function.update db.epochPaid (number2epoch rewardEpoch number) (some r.1) }
    else { db with unpaid := r.2 }
  have hunpaid : db'.unpaid = r.2 := by
    simp only [db']
    split_ifs <;> rfl
  refine ⟨r.1, loop.keys, db', ?_, hfold.1, hunpaid ▸ hfold.2⟩
  simp only [buildRewards, sub256_of_le hepoch.le hu, hstart, hloop, Option.map_some]
  rfl

end Window

/-- A window of twelve blocks, numbers 1 to 12, each with the depositor 1 of ten AMT as its only verifier. -/
def twelveListingsDB : RewardDB ℕ ℕ where
  canonicalHash := fun number => number + 1
  hasHeader := fun _ _ => true
  verifiers := fun _ _ => some [1]
  deposits := fun addr => if addr = 1 then some (10 * amt) else none
  unpaid := fun _ => 0
  epochPaid := fun _ => none

/-- The epoch at block 13 of a reward epoch of 12 blocks: the depositor listed twelve times, whose cap is ten
listings, is paid eleven. -/
theorem buildRewards_pays_aliased_twelveListings :
    ∃ pays keys db', buildRewards 0 13 twelveListingsDB 0 12 13 false = some (.ok (pays, keys, db')) ∧
      pays 1 = some (11 * (10 ^ 18 / 300 + 1)) := by
  obtain ⟨pays, keys, db', h, hpay, -⟩ := buildRewards_pays_aliased 0 twelveListingsDB 0 12 13 false (fun _ => [1])
    (by decide) (by decide) (fun k _ _ => ⟨by simp [twelveListingsDB], rfl, rfl⟩)
    (fun addr d hd => by
      simp only [twelveListingsDB] at hd
      split_ifs at hd
      cases hd
      decide)
    1 (show twelveListingsDB.deposits 1 = some (10 * amt) from rfl)
    (show depositTier (10 * amt / amt % u64) = some (10 ^ 18 / 300 + 1, (10 ^ 18 / 300 + 1) * 10) by decide)
    (by decide) (by decide) 13 (by decide)
  exact ⟨pays, keys, db', h, by rw [hpay]; decide⟩

end AmazeChain.APos
