import AmazeChain.Common.Transaction
import AmazeChain.Lib.Protowire

/-!
# The transaction root

`DeriveSha` (`common/hashing/hashing.go`) is no trie: it writes the encoding of each item of the list into
one Keccak sponge, with no length or separator between them, and reads the hash off.  For transactions the
encoding is `Transactions.EncodeIndex`, the bytes of `Transaction.Marshal`: the protobuf message of
`types_pb.Transaction` (`api/protocol/types_pb/types.proto`), whose limbs are the messages `H128`, `H160`
and `H256`.

A protobuf message carries no length, and two messages back to back parse as one; what splits the bytes of
the root here is that every message `Marshal` writes has its fields in increasing number order and has the
sender, field 11 (`marked_wireFields`).  The message of a decoded transaction gives the transaction back
(`Transaction.Decoded.roundTrip`), so with a Keccak without collisions, equal roots of two lists of decoded
transactions mean equal lists (`deriveSha_injective`).
-/

/-! ### The messages on the wire -/

namespace AmazeChain.Utils

open Protowire

/-- `types_pb.H128`: `hi = 1`, `lo = 2`. -/
def H128.slots (h : H128) : List (ℕ × Option Value) :=
  [(1, varintNoZero h.hi.toNat), (2, varintNoZero h.lo.toNat)]

def H128.protoMarshal (h : H128) : List UInt8 := marshal h.slots

/-- `types_pb.H160`: the submessage `hi = 1` and the `uint32` `lo = 2`. -/
def H160.slots (h : H160) : List (ℕ × Option Value) :=
  [(1, messagePtr H128.protoMarshal h.hi), (2, varintNoZero h.lo.toNat)]

def H160.protoMarshal (h : H160) : List UInt8 := marshal h.slots

/-- `types_pb.H256`: `hi = 1`, `lo = 2`. -/
def H256.slots (h : H256) : List (ℕ × Option Value) :=
  [(1, messagePtr H128.protoMarshal h.hi), (2, messagePtr H128.protoMarshal h.lo)]

def H256.protoMarshal (h : H256) : List UInt8 := marshal h.slots

@[simp] theorem H128.nums_slots (h : H128) : h.slots.map Prod.fst = [1, 2] := rfl

@[simp] theorem H160.nums_slots (h : H160) : h.slots.map Prod.fst = [1, 2] := rfl

@[simp] theorem H256.nums_slots (h : H256) : h.slots.map Prod.fst = [1, 2] := rfl

theorem H128.protoMarshal_injective : Function.Injective H128.protoMarshal := by
  intro h h' hm
  have hslots := marshal_inj (by simp) (by simp) hm
  simp only [H128.slots, List.cons.injEq, Prod.mk.injEq, varintNoZero_inj, UInt64.toNat_inj, true_and,
    and_true] at hslots
  cases h
  cases h'
  simp only [H128.mk.injEq]
  exact ⟨hslots.2, hslots.1⟩

theorem H160.protoMarshal_injective : Function.Injective H160.protoMarshal := by
  intro h h' hm
  have hslots := marshal_inj (by simp) (by simp) hm
  simp only [H160.slots, List.cons.injEq, Prod.mk.injEq, messagePtr_inj H128.protoMarshal_injective,
    varintNoZero_inj, UInt32.toNat_inj, true_and, and_true] at hslots
  cases h
  cases h'
  simpa using hslots

theorem H256.protoMarshal_injective : Function.Injective H256.protoMarshal := by
  intro h h' hm
  have hslots := marshal_inj (by simp) (by simp) hm
  simp only [H256.slots, List.cons.injEq, Prod.mk.injEq, messagePtr_inj H128.protoMarshal_injective,
    true_and, and_true] at hslots
  cases h
  cases h'
  simp only [H256.mk.injEq]
  exact ⟨hslots.2, hslots.1⟩

end AmazeChain.Utils

namespace AmazeChain.Common

open Utils Protowire

/-- `types_pb.Transaction` in field number order; `hash = 13` is never written, so its pointer is nil. -/
def PbTransaction.slots (pb : PbTransaction) : List (ℕ × Option Value) :=
  [(1, varintNoZero pb.txType.toNat), (2, varintNoZero pb.nonce.toNat),
    (3, messagePtr H256.protoMarshal pb.gasPrice), (4, varintNoZero pb.gas.toNat),
    (5, messagePtr H256.protoMarshal pb.feePerGas), (6, messagePtr H256.protoMarshal pb.priorityFeePerGas),
    (7, messagePtr H256.protoMarshal pb.value), (8, bytesNoZero pb.data), (9, bytesNoZero pb.sign),
    (10, messagePtr H160.protoMarshal pb.toAddr), (11, messagePtr H160.protoMarshal pb.fromAddr),
    (12, varintNoZero pb.chainID.toNat), (14, messagePtr H256.protoMarshal pb.r),
    (15, messagePtr H256.protoMarshal pb.s), (16, messagePtr H256.protoMarshal pb.v)]

/-- `proto.Marshal(&pbTx)`. -/
def PbTransaction.protoMarshal (pb : PbTransaction) : List UInt8 := marshal pb.slots

@[simp] theorem PbTransaction.nums_slots (pb : PbTransaction) :
    pb.slots.map Prod.fst = [1, 2, 3, 4, 5, 6, 7, 8, 9, 10, 11, 12, 14, 15, 16] := rfl

theorem PbTransaction.slots_injective : Function.Injective PbTransaction.slots := by
  intro pb pb' hslots
  simp only [PbTransaction.slots, List.cons.injEq, Prod.mk.injEq, varintNoZero_inj, bytesNoZero_inj,
    messagePtr_inj H256.protoMarshal_injective, messagePtr_inj H160.protoMarshal_injective,
    UInt64.toNat_inj, true_and, and_true] at hslots
  cases pb
  cases pb'
  simpa using hslots

/-! ### `EncodeIndex` and `DeriveSha` -/

/-- `Transactions.EncodeIndex`: the bytes of `Marshal`, whose error it drops; a nil sender is a panic. -/
def encodeIndex (tx : Transaction) : Option (List UInt8) := tx.marshal.map PbTransaction.protoMarshal

/-- `DeriveSha` of a `DerivableList` with the encoding `encode` of its items: the items go into the sponge one
after another, so the hash is Keccak of their concatenation.  A panic of an encoding is `none`. -/
def deriveSha {α Hash : Type} (keccak : List UInt8 → Hash) (encode : α → Option (List UInt8)) (list : List α) :
    Option Hash :=
  (list.mapM encode).map fun values => keccak values.flatten

/-- The fields of the message `Marshal` writes; none where it panics. -/
def Transaction.wireFields (tx : Transaction) : List Field :=
  (tx.marshal.map fun pb => present pb.slots).getD []

theorem deriveSha_of_encode {α Hash : Type} (keccak : List UInt8 → Hash) {encode : α → Option (List UInt8)}
    {bytes : α → List UInt8} {list : List α} (h : ∀ a ∈ list, encode a = some (bytes a)) :
    deriveSha keccak encode list = some (keccak (list.map bytes).flatten) := by
  have hmap : list.mapM encode = some (list.map bytes) := by
    induction list with
    | nil => rfl
    | cons a list ih =>
      rw [List.mapM_cons, h a List.mem_cons_self, ih fun b hb => h b (List.mem_cons_of_mem a hb)]
      rfl
  simp [deriveSha, hmap]

namespace Transaction.Decoded

variable {tx tx' : Transaction}

theorem encodeIndex_eq (h : tx.Decoded) : encodeIndex tx = some (encodeFields tx.wireFields) := by
  obtain ⟨pb, hpb, -, -⟩ := h.roundTrip
  rw [encodeIndex, wireFields, hpb]
  rfl

/-- The message of a decoded transaction has its fields in increasing number order and has the sender. -/
theorem marked_wireFields (h : tx.Decoded) : Marked 11 tx.wireFields := by
  obtain ⟨pb, hpb, -, hfrom⟩ := h.roundTrip
  obtain ⟨sender, hsender⟩ := Option.isSome_iff_exists.1 hfrom
  have hmark : (11, some (Value.bytes sender.protoMarshal)) ∈ pb.slots := by
    simp [PbTransaction.slots, hsender, messagePtr]
  simpa [wireFields, hpb] using marked_present (by rw [PbTransaction.nums_slots]; decide) hmark

theorem wireFields_inj (h : tx.Decoded) (h' : tx'.Decoded) (hw : tx.wireFields = tx'.wireFields) : tx = tx' := by
  obtain ⟨pb, hpb, -, -⟩ := h.roundTrip
  obtain ⟨pb', hpb', -, -⟩ := h'.roundTrip
  simp only [wireFields, hpb, hpb', Option.map_some, Option.getD_some] at hw
  have hslots := present_injective (by simp) (by rw [PbTransaction.nums_slots]; decide) hw
  exact h.marshal_inj h' (by rw [hpb, hpb', PbTransaction.slots_injective hslots])

end Transaction.Decoded

/-- Decoded transactions are told apart by the fields of their messages. -/
theorem map_wireFields_inj : ∀ {L₁ L₂ : List Transaction}, (∀ tx ∈ L₁, tx.Decoded) → (∀ tx ∈ L₂, tx.Decoded) →
    L₁.map Transaction.wireFields = L₂.map Transaction.wireFields → L₁ = L₂
  | [], [], _, _, _ => rfl
  | [], _ :: _, _, _, h => by simp at h
  | _ :: _, [], _, _, h => by simp at h
  | tx :: L₁, tx' :: L₂, h₁, h₂, h => by
    rw [List.map_cons, List.map_cons, List.cons.injEq] at h
    rw [(h₁ tx List.mem_cons_self).wireFields_inj (h₂ tx' List.mem_cons_self) h.1,
      map_wireFields_inj (fun t ht => h₁ t (List.mem_cons_of_mem tx ht))
        (fun t ht => h₂ t (List.mem_cons_of_mem tx' ht)) h.2]

section

variable {Hash : Type} (keccak : List UInt8 → Hash)

/-- The root of decoded transactions is Keccak of their messages' fields, one list after another. -/
theorem deriveSha_decoded {L : List Transaction} (hL : ∀ tx ∈ L, tx.Decoded) :
    deriveSha keccak encodeIndex L = some (keccak (encodeFields (L.map Transaction.wireFields).flatten)) := by
  rw [deriveSha_of_encode keccak fun tx htx => (hL tx htx).encodeIndex_eq, encodeFields_flatten, List.map_map]
  rfl

/-- With a Keccak without collisions, the root of a list of decoded transactions determines the list: the
bytes determine the fields, the sender marks where each message ends, and each message its transaction. -/
theorem deriveSha_injective (hk : Function.Injective keccak) {L₁ L₂ : List Transaction}
    (h₁ : ∀ tx ∈ L₁, tx.Decoded) (h₂ : ∀ tx ∈ L₂, tx.Decoded)
    (h : deriveSha keccak encodeIndex L₁ = deriveSha keccak encodeIndex L₂) : L₁ = L₂ := by
  rw [deriveSha_decoded keccak h₁, deriveSha_decoded keccak h₂, Option.some.injEq] at h
  have hfields := encodeFields_injective (hk h)
  have hmessages := flatten_injective_of_marked
    (by simpa using fun tx htx => (h₁ tx htx).marked_wireFields)
    (by simpa using fun tx htx => (h₂ tx htx).marked_wireFields) hfields
  exact map_wireFields_inj h₁ h₂ hmessages

end

end AmazeChain.Common
