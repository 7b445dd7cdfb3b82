import AmazeChain.State.Root
import AmazeChain.Rlp.Typed
import AmazeChain.Rlp.Decode
import AmazeChain.Common.Types

/-!
# What the state root hashes

`GenerateRootHash` takes a Keccak-256 state from `utils.HasherPool`, resets it, and for each dirty address in
ascending order writes into it `rlp.Encode(sha, []interface{}{...})` of six fields of the account: `Incarnation`
(a `uint16`), `Balance` (a `uint256.Int`), `Nonce` (a `uint64`), `Initialised` (a `bool`), and `CodeHash` and
`Root` (`types.Hash`, arrays of 32 bytes).  The root is what `sha.Read` returns.  With no dirty address it is
`utils.NilHash`, the Keccak-256 of no input (`crypto.EmptyCodeHash` has the same value), which is what the state
would return having absorbed nothing.

So the hasher of `State.Root` is Keccak-256 over `rootInput`, the encodings of the accounts one after another
(`RootHasher.ofKeccak`).  Those bytes are the RLP encodings of the accounts' values (`rootInput_eq`), and an
encoding determines its value, a value its fields: different lists of fields give different bytes
(`rootInput_inj`).  Two runs that give one root therefore read the same fields of the same number of accounts, or
they have found two inputs on which Keccak-256 agrees (`generateRootHash_binds_fields`).
-/

namespace AmazeChain.State

open Rlp

/-- The slice of `interface{}` values `GenerateRootHash` encodes for an account. -/
def RootFields.toDyn (f : RootFields Common.Hash) : Dyn :=
  .list [.uint f.incarnation.toUInt64, .uint256 f.balance, .uint f.nonce, .bool f.initialised,
    .byteArray f.codeHash.toList, .byteArray f.root.toList]

/-- What the loop of `GenerateRootHash` writes into the reset Keccak state: `rlp.Encode` of each account, one
after another. -/
def rootInput (fields : List (RootFields Common.Hash)) : List UInt8 :=
  fields.foldl (fun sha f => Rlp.encode sha f.toDyn) []

/-- The hasher of `GenerateRootHash` for a Keccak-256 on bytes: the hash of what the loop wrote, and `NilHash`,
the hash of no input. -/
def RootHasher.ofKeccak (keccak : List UInt8 → Common.Hash) : RootHasher Common.Hash :=
  ⟨fun fields => keccak (rootInput fields), keccak []⟩

/-! ### The bytes of the accounts -/

/-- The RLP value of an account's fields: a list of six strings. -/
theorem toValue_toDyn (f : RootFields Common.Hash) : f.toDyn.toValue =
    .list [.bytes (uintBytes f.incarnation.toUInt64), .bytes (uint256Bytes f.balance), .bytes (uintBytes f.nonce),
      .bytes (boolBytes f.initialised), .bytes f.codeHash.toList, .bytes f.root.toList] := rfl

/-- An account's encoding is short: six strings of at most `32` bytes under one header. -/
theorem length_encode_toDyn (f : RootFields Common.Hash) : f.toDyn.toValue.encode.length < 2 ^ 64 := by
  rw [toValue_toDyn]
  have hl := length_encode_list_le [.bytes (uintBytes f.incarnation.toUInt64), .bytes (uint256Bytes f.balance),
    .bytes (uintBytes f.nonce), .bytes (boolBytes f.initialised), .bytes f.codeHash.toList, .bytes f.root.toList]
  have h1 := length_encode_bytes_le (uintBytes f.incarnation.toUInt64)
  have h2 := length_encode_bytes_le (uint256Bytes f.balance)
  have h3 := length_encode_bytes_le (uintBytes f.nonce)
  have h4 := length_encode_bytes_le (boolBytes f.initialised)
  have h5 := length_encode_bytes_le f.codeHash.toList
  have h6 := length_encode_bytes_le f.root.toList
  have := length_uintBytes_le f.incarnation.toUInt64
  have := length_uint256Bytes_le f.balance
  have := length_uintBytes_le f.nonce
  have := length_boolBytes_le f.initialised
  rw [List.Vector.toList_length] at h5 h6
  have : Common.hashLength = 32 := rfl
  simp only [Value.encodeAll, List.length_append, List.length_nil] at hl
  omega

/-- The fields of an account are read back from its RLP value. -/
theorem toValue_toDyn_injective : Function.Injective fun f : RootFields Common.Hash => f.toDyn.toValue := by
  intro f g h
  simp only [toValue_toDyn, Value.list.injEq, Value.bytes.injEq, List.cons.injEq] at h
  obtain ⟨hi, hb, hn, hin, hc, hr, -⟩ := h
  cases f
  cases g
  simp only [RootFields.mk.injEq]
  exact ⟨UInt16.toUInt64_inj.1 (uintBytes_inj hi), uint256Bytes_inj hb, uintBytes_inj hn, boolBytes_inj hin,
    List.Vector.eq _ _ hc, List.Vector.eq _ _ hr⟩

/-- The loop appends the RLP encodings of the accounts' values to what the state held. -/
theorem foldl_encode (out : List UInt8) : ∀ fields : List (RootFields Common.Hash),
    fields.foldl (fun sha f => Rlp.encode sha f.toDyn) out =
      out ++ Value.encodeAll (fields.map fun f => f.toDyn.toValue)
  | [] => by rw [List.foldl_nil, List.map_nil, Value.encodeAll, List.append_nil]
  | f :: fields => by
    rw [List.foldl_cons, encode_eq _ _ (length_encode_toDyn f), foldl_encode, List.map_cons, Value.encodeAll,
      List.append_assoc]

theorem rootInput_eq (fields : List (RootFields Common.Hash)) :
    rootInput fields = Value.encodeAll (fields.map fun f => f.toDyn.toValue) :=
  (foldl_encode [] fields).trans (List.nil_append _)

/-- Different lists of fields give Keccak different bytes. -/
theorem rootInput_inj {fields₁ fields₂ : List (RootFields Common.Hash)} (h : rootInput fields₁ = rootInput fields₂) :
    fields₁ = fields₂ := by
  rw [rootInput_eq, rootInput_eq] at h
  have hshort : ∀ fields : List (RootFields Common.Hash), ∀ v ∈ fields.map fun f => f.toDyn.toValue,
      v.encode.length < 2 ^ 64 := by
    intro fields v hv
    obtain ⟨f, -, rfl⟩ := List.mem_map.1 hv
    exact length_encode_toDyn f
  exact List.map_injective_iff.2 toValue_toDyn_injective (encodeAll_inj (hshort fields₁) (hshort fields₂) h)

/-! ### The root commits to the fields -/

namespace IntraBlockState

variable {Addr : Type} [DecidableEq Addr] (env : StateEnv Addr Common.Hash)

/-- The root is the Keccak-256 of the fields the loop reads; with no address, of no input. -/
theorem generateRootHash_ofKeccak (keccak : List UInt8 → Common.Hash) (rootOf : Addr → Common.Hash)
    (s : IntraBlockState Addr Common.Hash) (sortAds : List Addr) :
    (s.generateRootHash env (.ofKeccak keccak) rootOf sortAds).map Prod.fst =
      (rootFieldsLoop env rootOf s sortAds).map fun r => keccak (rootInput r.1) := by
  unfold generateRootHash
  split
  · next h =>
    subst h
    rfl
  · rw [Option.map_map]
    rfl

/-- Two runs that give one root read the same fields of the same accounts in the same order, or Keccak-256 agrees
on two different inputs: the root commits to the six fields of every dirty account. -/
theorem generateRootHash_binds_fields (keccak : List UInt8 → Common.Hash) (rootOf₁ rootOf₂ : Addr → Common.Hash)
    {s₁ s₂ : IntraBlockState Addr Common.Hash} {sortAds₁ sortAds₂ : List Addr}
    (h : (s₁.generateRootHash env (.ofKeccak keccak) rootOf₁ sortAds₁).map Prod.fst =
      (s₂.generateRootHash env (.ofKeccak keccak) rootOf₂ sortAds₂).map Prod.fst) :
    (rootFieldsLoop env rootOf₁ s₁ sortAds₁).map Prod.fst = (rootFieldsLoop env rootOf₂ s₂ sortAds₂).map Prod.fst ∨
      ∃ x y, x ≠ y ∧ keccak x = keccak y := by
  rw [generateRootHash_ofKeccak, generateRootHash_ofKeccak] at h
  -- a run that panics gives no root, so both panic or neither does
  rcases h₁ : rootFieldsLoop env rootOf₁ s₁ sortAds₁ with _ | ⟨fields₁, t₁⟩ <;>
    rcases h₂ : rootFieldsLoop env rootOf₂ s₂ sortAds₂ with _ | ⟨fields₂, t₂⟩ <;>
    rw [h₁, h₂] at h
  · exact Or.inl rfl
  · exact absurd h (by simp)
  · exact absurd h (by simp)
  · simp only [Option.map_some, Option.some.injEq] at h ⊢
    by_cases hin : rootInput fields₁ = rootInput fields₂
    · exact Or.inl (rootInput_inj hin)
    · exact Or.inr ⟨_, _, hin, h⟩

/-- A database with one account `1`, over hashes of 32 bytes. -/
def hashReader : StateReader ℕ Common.Hash where
  readAccountData a := if a = 1 then some ⟨true, 3, 10, Utils.zeroBytes 32, 0⟩ else none
  readAccountStorage _ _ _ := none
  readAccountCode _ _ _ := none
  readAccountCodeSize _ _ _ := 0
  readAccountIncarnation _ := 0

/-- A Keccak-256 that maps every input to the zero hash. -/
def zeroKeccak : List UInt8 → Common.Hash := fun _ => Utils.zeroBytes 32

/-- Hashes by `zeroKeccak`; `ripemd` is the address `3`. -/
def hashEnv : StateEnv ℕ Common.Hash := ⟨zeroKeccak, Utils.zeroBytes 32, 3⟩

/-- With `zeroKeccak`, the root of no account is the root of account `1`: the two runs read
different fields, and the constant function agrees on two inputs. -/
theorem generateRootHash_binds_fields_constKeccak :
    ((new hashEnv hashReader).generateRootHash hashEnv (.ofKeccak zeroKeccak) (fun _ => Utils.zeroBytes 32) []).map
        Prod.fst =
      ((new hashEnv hashReader).generateRootHash hashEnv (.ofKeccak zeroKeccak) (fun _ => Utils.zeroBytes 32) [1]).map
        Prod.fst ∧
    ((rootFieldsLoop hashEnv (fun _ => Utils.zeroBytes 32) (new hashEnv hashReader) []).map Prod.fst =
        (rootFieldsLoop hashEnv (fun _ => Utils.zeroBytes 32) (new hashEnv hashReader) [1]).map Prod.fst ∨
      ∃ x y, x ≠ y ∧ zeroKeccak x = zeroKeccak y) :=
  ⟨rfl, generateRootHash_binds_fields hashEnv _ _ _ rfl⟩

end IntraBlockState

end AmazeChain.State
