import AmazeChain.Rlp.Split

/-!
# Typed values and `Encode`

`makeWriter` (`encode.go`) picks a writer for a Go type by its kind, and `writeInterface` calls the writer of the
dynamic type of the value an `interface{}` holds.  The types below are those that the state root and the snapshot
put into the codec: the unsigned integers (`writeUint`, of `val.Uint()`), `bool` (`writeBool`), `uint256.Int`
(`writeUint256`), byte arrays (`makeByteArrayWriter`), byte slices (`writeBytes`), slices (`makeSliceWriter`) and
structs with no optional field (`makeStructWriter`), both a list of their elements.  A pointer that is not nil is
written as what it points to (`makePtrWriter`).

Every typed writer writes the string encoding of a byte string: the minimal big-endian bytes of an integer, one
byte `0x01` or nothing for a bool, the bytes of an array.  So a typed value goes into the buffer exactly as the
RLP value `Dyn.toValue` names (`makeWriter_eq`), and all that is proved of the encoder of `Value` holds for it:
`EncodeToBytes` of a typed value is the encoding of its RLP value (`Dyn.encodeToBytes_eq`).

`Encode` renders the buffer into an `io.Writer` through `toWriter`, which walks the list headers as `toBytes`
does but writes no empty piece of string data.  The writers keep the headers' offsets increasing and within the
string data (`HeadsSorted`), and over such headers `toWriter` writes the bytes of `toBytes`
(`toWriterLoop_eq_copyHeads`): `Encode` writes the RLP encoding of the value (`encode_eq`).
-/

namespace AmazeChain.Rlp

/-! ### Typed values -/

/-- A value of `interface{}` by its dynamic type, among the types whose writers the model has. -/
inductive Dyn where
  /-- an unsigned integer of any width, as `val.Uint()` widens it -/
  | uint (i : UInt64)
  | bool (b : Bool)
  | uint256 (x : BitVec 256)
  /-- `[N]byte` -/
  | byteArray (b : List UInt8)
  /-- `[]byte` -/
  | bytes (b : List UInt8)
  /-- a slice, or a struct by its fields in order -/
  | list (vs : List Dyn)
  deriving Repr

/-- `uint256.Int.ByteLen`: the number of bytes of `x`, zero for zero. -/
def byteLen (x : BitVec 256) : ℕ := if x = 0 then 0 else (x.toNat.log2 + 1 + 7) / 8

namespace Encbuf

/-- `writeBool`: `0x01` for true, `EmptyStringCode` for false. -/
def writeBool (w : Encbuf) (b : Bool) : Encbuf :=
  if b then { w with str := w.str ++ [0x01] } else { w with str := w.str ++ [0x80] }

/-- `writeUint256`: zero is `EmptyStringCode`, a value below `0x80` its own byte, any other value the header of its
byte length and the bytes that `WriteToSlice` writes into the slice after it, most significant first. -/
def writeUint256 (w : Encbuf) (x : BitVec 256) : Encbuf :=
  if x = 0 then { w with str := w.str ++ [0x80] }
  else if x.toNat < 0x80 then { w with str := w.str ++ [UInt8.ofNat x.toNat] }
  else
    let n := byteLen x
    { w with str := w.str ++ (0x80 + UInt8.ofNat n) :: BigEndian.ofNat x.toNat n }

/-- `writeLengthZeroByteArray`. -/
def writeLengthZeroByteArray (w : Encbuf) : Encbuf := { w with str := w.str ++ [0x80] }

/-- `writeLengthOneByteArray`: the byte alone up to `0x7F`, else after the header of one byte. -/
def writeLengthOneByteArray (w : Encbuf) (b : UInt8) : Encbuf :=
  if b ≤ 0x7F then { w with str := w.str ++ [b] } else { w with str := w.str ++ [0x81, b] }

/-- `writeByteArrayCopy`: the string header, then the array copied into the room made after it. -/
def writeByteArrayCopy (w : Encbuf) (length : ℕ) (val : List UInt8) : Encbuf :=
  let w := w.encodeStringHeader length
  { w with str := w.str ++ val }

end Encbuf

open Encbuf

/-- The writer `makeByteArrayWriter` makes for an array of bytes, by the array's length. -/
def makeByteArrayWriter (b : List UInt8) (w : Encbuf) : Encbuf :=
  match b with
  | [] => w.writeLengthZeroByteArray
  | [x] => w.writeLengthOneByteArray x
  | _ => w.writeByteArrayCopy b.length b

mutual

/-- The writer `makeWriter` makes for the dynamic type of a value, applied to it, as `writeInterface` does. -/
def makeWriter : Dyn → Encbuf → Encbuf
  -- `writeUint`
  | .uint i, w => w.encodeUint i
  | .bool b, w => w.writeBool b
  | .uint256 x, w => w.writeUint256 x
  | .byteArray b, w => makeByteArrayWriter b w
  -- `writeBytes`
  | .bytes b, w => w.encodeString b
  -- the slice and struct writers, the elements between `list` and the deferred `listEnd`
  | .list vs, w =>
    let (w, lh) := w.list
    (makeWriters vs w).listEnd lh

/-- The loop of the slice writer over the elements. -/
def makeWriters : List Dyn → Encbuf → Encbuf
  | [], w => w
  | v :: vs, w => makeWriters vs (makeWriter v w)

end

/-- The loop of `toWriter`, into a writer that takes every byte it is given, as a Keccak state does: the string
data before each header when there is some, then the header, and the string data after the last header.  A header
lies within the string data, so the bytes written before it move `strpos` to its offset. -/
def toWriterLoop (str : List UInt8) : List Listhead → ℕ → List UInt8
  | [], strpos => if strpos < str.length then str.drop strpos else []
  | head :: heads, strpos =>
    if strpos < head.offset then
      (str.drop strpos).take (head.offset - strpos) ++ head.encode ++ toWriterLoop str heads head.offset
    else head.encode ++ toWriterLoop str heads strpos

/-- `toWriter`: what the writer holds afterwards, the bytes it held and those written. -/
def Encbuf.toWriter (w : Encbuf) (out : List UInt8) : List UInt8 := out ++ toWriterLoop w.str w.lheads 0

/-- `Encode` into a writer that takes every byte, from a reset pooled buffer. -/
def encode (out : List UInt8) (val : Dyn) : List UInt8 := (makeWriter val Encbuf.empty).toWriter out

/-- `EncodeToBytes` of a typed value. -/
def Dyn.encodeToBytes (val : Dyn) : List UInt8 := (makeWriter val Encbuf.empty).toBytes

/-! ### The RLP value of a typed value -/

/-- The string of an unsigned integer: its minimal big-endian bytes, none for zero. -/
def uintBytes (i : UInt64) : List UInt8 := if i = 0 then [] else putint i

/-- The string of a `uint256.Int`: its `ByteLen` bytes, most significant first. -/
def uint256Bytes (x : BitVec 256) : List UInt8 := BigEndian.ofNat x.toNat (byteLen x)

/-- The string of a bool: `0x01` for true, empty for false. -/
def boolBytes (b : Bool) : List UInt8 := if b then [0x01] else []

mutual

/-- The RLP value that a typed value is encoded as. -/
def Dyn.toValue : Dyn → Value
  | .uint i => .bytes (uintBytes i)
  | .bool b => .bytes (boolBytes b)
  | .uint256 x => .bytes (uint256Bytes x)
  | .byteArray b => .bytes b
  | .bytes b => .bytes b
  | .list vs => .list (Dyn.toValues vs)

/-- The RLP values of a list's elements. -/
def Dyn.toValues : List Dyn → List Value
  | [] => []
  | v :: vs => v.toValue :: Dyn.toValues vs

end

/-! ### Every typed writer writes a string -/

namespace Encbuf

/-- A string whose number is at least `0x80` is not a single byte below it: it gets its header. -/
theorem encodeString_of_le_toNat (w : Encbuf) {b : List UInt8} (h : 0x80 ≤ BigEndian.toNat b) (hb : b.length < 56) :
    w.encodeString b = { w with str := w.str ++ (0x80 + UInt8.ofNat b.length) :: b } := by
  unfold encodeString encodeStringHeader
  rw [if_neg, if_pos hb]
  · simp
  · rintro ⟨h1, h7⟩
    obtain ⟨x, rfl⟩ := List.length_eq_one_iff.1 h1
    simp only [BigEndian.toNat, List.length_nil, pow_zero, mul_one, add_zero] at h
    simp only [List.headD_cons, UInt8.le_iff_toNat_le] at h7
    exact absurd h7 (by simp; omega)

/-- `writeUint` writes the string of the integer's bytes. -/
theorem encodeUint_eq_encodeString (w : Encbuf) (i : UInt64) : w.encodeUint i = w.encodeString (uintBytes i) := by
  unfold encodeUint uintBytes
  by_cases h0 : i = 0
  · rw [if_pos h0, if_pos h0]
    simp [encodeString, encodeStringHeader]
  rw [if_neg h0, if_neg h0]
  by_cases h128 : i < 128
  · -- below `0x80` the one byte is its own encoding
    have hlt : i.toNat < 128 := UInt64.lt_iff_toNat_lt.1 h128
    rw [if_pos h128, putint_of_lt (by omega)]
    unfold encodeString
    rw [if_pos ⟨rfl, by simp [UInt8.le_iff_toNat_le]; omega⟩]
    rfl
  · have hge : 128 ≤ i.toNat := by simpa [UInt64.lt_iff_toNat_lt] using h128
    rw [if_neg h128, encodeString_of_le_toNat w (by rw [toNat_putint]; exact hge)
      (by rw [length_putint]; have := putintSize_le i; omega)]


/-- `writeBool` writes the string of the bool. -/
theorem writeBool_eq_encodeString (w : Encbuf) (b : Bool) : w.writeBool b = w.encodeString (boolBytes b) := by
  cases b <;> simp [writeBool, boolBytes, encodeString, encodeStringHeader]

/-- `makeByteArrayWriter`'s three writers write the array as `writeBytes` writes a slice. -/
theorem makeByteArrayWriter_eq_encodeString (b : List UInt8) (w : Encbuf) :
    makeByteArrayWriter b w = w.encodeString b := by
  rcases b with _ | ⟨x, _ | ⟨y, rest⟩⟩
  · simp [makeByteArrayWriter, writeLengthZeroByteArray, encodeString, encodeStringHeader]
  · simp only [makeByteArrayWriter, writeLengthOneByteArray, encodeString, List.length_singleton, List.headD_cons,
      true_and]
    by_cases hx : x ≤ 0x7F
    · rw [if_pos hx, if_pos hx]
    · rw [if_neg hx, if_neg hx]
      simp [encodeStringHeader]
  · simp only [makeByteArrayWriter, writeByteArrayCopy, encodeString]
    rw [if_neg (by simp)]

end Encbuf

/-- `ByteLen` is between one and `32` for a value that is not zero, and enough bytes for it. -/
theorem byteLen_spec {x : BitVec 256} (h : x ≠ 0) : 1 ≤ byteLen x ∧ byteLen x ≤ 32 ∧ x.toNat < 256 ^ byteLen x := by
  have hn : x.toNat ≠ 0 := fun h0 => h (BitVec.eq_of_toNat_eq (by simp [h0]))
  have hlog : x.toNat.log2 < 256 := (Nat.log2_lt hn).2 x.isLt
  unfold byteLen
  rw [if_neg h]
  refine ⟨by omega, by omega, ?_⟩
  calc x.toNat < 2 ^ (x.toNat.log2 + 1) := Nat.lt_log2_self
    _ ≤ 2 ^ (8 * ((x.toNat.log2 + 1 + 7) / 8)) := Nat.pow_le_pow_right (by decide) (by omega)
    _ = 256 ^ ((x.toNat.log2 + 1 + 7) / 8) := by rw [pow_mul]; rfl

theorem toNat_uint256Bytes (x : BitVec 256) : BigEndian.toNat (uint256Bytes x) = x.toNat := by
  unfold uint256Bytes
  by_cases h0 : x = 0
  · subst h0
    rfl
  · rw [BigEndian.toNat_ofNat, Nat.mod_eq_of_lt (byteLen_spec h0).2.2]

namespace Encbuf

/-- `writeUint256` writes the string of the value's bytes. -/
theorem writeUint256_eq_encodeString (w : Encbuf) (x : BitVec 256) :
    w.writeUint256 x = w.encodeString (uint256Bytes x) := by
  unfold writeUint256
  by_cases h0 : x = 0
  · subst h0
    simp [uint256Bytes, byteLen, BigEndian.ofNat, encodeString, encodeStringHeader]
  rw [if_neg h0]
  obtain ⟨h1, h32, -⟩ := byteLen_spec h0
  have hn : x.toNat ≠ 0 := fun h => h0 (BitVec.eq_of_toNat_eq (by simp [h]))
  by_cases h80 : x.toNat < 0x80
  · -- one byte, below `0x80`: its own encoding
    have hk : byteLen x = 1 := by
      have := (Nat.log2_lt hn).2 (show x.toNat < 2 ^ 7 by omega)
      unfold byteLen
      rw [if_neg h0]
      omega
    rw [if_pos h80, uint256Bytes, hk]
    unfold encodeString
    rw [if_pos ⟨rfl, by simp [BigEndian.ofNat, UInt8.le_iff_toNat_le]; omega⟩]
    simp [BigEndian.ofNat]
  · rw [if_neg h80, encodeString_of_le_toNat w (by rw [toNat_uint256Bytes]; omega)
      (by rw [uint256Bytes, BigEndian.length_ofNat]; omega), uint256Bytes, BigEndian.length_ofNat]

end Encbuf

mutual

/-- A typed value goes into the buffer as its RLP value does. -/
theorem makeWriter_eq : ∀ (d : Dyn) (w : Encbuf), makeWriter d w = writeInterface d.toValue w
  | .uint i, w => encodeUint_eq_encodeString w i
  | .bool b, w => writeBool_eq_encodeString w b
  | .uint256 x, w => writeUint256_eq_encodeString w x
  | .byteArray b, w => makeByteArrayWriter_eq_encodeString b w
  | .bytes _, _ => rfl
  | .list vs, w => by
    rw [makeWriter, Dyn.toValue, writeInterface, Encbuf.list_eq]
    dsimp only
    rw [makeWriters_eq]

theorem makeWriters_eq : ∀ (vs : List Dyn) (w : Encbuf), makeWriters vs w = writeInterfaces (Dyn.toValues vs) w
  | [], _ => rfl
  | v :: vs, w => by rw [makeWriters, Dyn.toValues, writeInterfaces, makeWriter_eq, makeWriters_eq]

end


/-! ### `toWriter` writes what `toBytes` writes -/

/-- Over headers whose offsets increase from `strpos`, the pieces of string data that `toWriter` skips are empty,
and it writes what `toBytes` writes. -/
theorem toWriterLoop_eq_copyHeads (str : List UInt8) : ∀ (heads : List Listhead) (strpos : ℕ),
    (strpos :: heads.map Listhead.offset).Pairwise (· ≤ ·) → toWriterLoop str heads strpos = copyHeads str heads strpos
  | [], strpos, _ => by
    unfold toWriterLoop copyHeads
    split_ifs with h
    · rfl
    · rw [List.drop_eq_nil_of_le (by omega)]
  | head :: heads, strpos, h => by
    rw [List.map_cons, List.pairwise_cons] at h
    obtain ⟨hle, hrest⟩ := h
    have hp : strpos ≤ head.offset := hle _ List.mem_cons_self
    unfold toWriterLoop copyHeads
    by_cases hlt : strpos < head.offset
    · rw [if_pos hlt, toWriterLoop_eq_copyHeads str heads head.offset hrest]
    · -- the header stands at `strpos`: no string data before it
      have heq : head.offset = strpos := by omega
      rw [if_neg hlt, heq, Nat.sub_self, List.take_zero, List.nil_append]
      rw [heq] at hrest
      rw [toWriterLoop_eq_copyHeads str heads strpos hrest]

namespace Encbuf

/-- The headers' offsets increase along the list, and none lies past the string data. -/
def HeadsSorted (w : Encbuf) : Prop := (w.lheads.map Listhead.offset ++ [w.str.length]).Pairwise (· ≤ ·)

theorem HeadsSorted.empty : Encbuf.empty.HeadsSorted := List.pairwise_singleton _ _

/-- What only appends string data keeps the headers sorted. -/
theorem HeadsSorted.of_str {w w' : Encbuf} (h : w.HeadsSorted) (hl : w'.lheads = w.lheads)
    (hs : w.str.length ≤ w'.str.length) : w'.HeadsSorted := by
  unfold HeadsSorted at h ⊢
  rw [hl]
  rw [List.pairwise_append] at h ⊢
  obtain ⟨h1, -, h3⟩ := h
  refine ⟨h1, List.pairwise_singleton _ _, fun a ha b hb => ?_⟩
  rw [List.mem_singleton] at hb
  subst hb
  exact Nat.le_trans (h3 a ha _ (List.mem_singleton_self _)) hs

theorem HeadsSorted.encodeString {w : Encbuf} (h : w.HeadsSorted) (b : List UInt8) : (w.encodeString b).HeadsSorted := by
  apply h.of_str
  · unfold Encbuf.encodeString encodeStringHeader
    split_ifs <;> rfl
  · unfold Encbuf.encodeString encodeStringHeader
    split_ifs <;> simp

/-- `list` puts its header at the end of the string data. -/
theorem HeadsSorted.list {w : Encbuf} (h : w.HeadsSorted) :
    ({ w with lheads := w.lheads ++ [⟨w.str.length, w.lhsize⟩] } : Encbuf).HeadsSorted := by
  unfold HeadsSorted at h ⊢
  rw [List.map_append, List.map_singleton]
  refine List.pairwise_append.2 ⟨h, List.pairwise_singleton _ _, fun a ha b hb => ?_⟩
  rw [List.mem_singleton] at hb
  subst hb
  rcases List.mem_append.1 ha with ha | ha
  · exact (List.pairwise_append.1 h).2.2 a ha _ (List.mem_singleton_self _)
  · rw [List.mem_singleton.1 ha]

/-- `listEnd` sets a header's size and keeps its offset. -/
theorem HeadsSorted.listEnd {w : Encbuf} (h : w.HeadsSorted) (index : ℕ) : (w.listEnd index).HeadsSorted := by
  unfold Encbuf.listEnd
  split
  · next lh hlh =>
    obtain ⟨hi, rfl⟩ := List.getElem?_eq_some_iff.1 hlh
    have hoff : (w.lheads.set index { w.lheads[index] with size := w.size - w.lheads[index].offset -
        w.lheads[index].size }).map Listhead.offset = w.lheads.map Listhead.offset := by
      have hself := @List.set_getElem_self _ (w.lheads.map Listhead.offset) index (by rw [List.length_map]; exact hi)
      rw [List.getElem_map] at hself
      rw [List.map_set]
      exact hself
    unfold HeadsSorted
    dsimp only
    rw [hoff]
    exact h
  · exact h

/-- The offsets from position zero. -/
theorem HeadsSorted.zero_cons {w : Encbuf} (h : w.HeadsSorted) : (0 :: w.lheads.map Listhead.offset).Pairwise (· ≤ ·) :=
  List.pairwise_cons.2 ⟨fun _ _ => Nat.zero_le _, (List.pairwise_append.1 h).1⟩

/-- Over sorted headers `toWriter` writes the bytes of `toBytes`. -/
theorem toWriter_eq_toBytes {w : Encbuf} (h : w.HeadsSorted) (out : List UInt8) : w.toWriter out = out ++ w.toBytes := by
  rw [toWriter, toWriterLoop_eq_copyHeads _ _ _ h.zero_cons, toBytes]

end Encbuf

mutual

/-- Writing a value keeps the headers sorted. -/
theorem headsSorted_writeInterface : ∀ (v : Value) {w : Encbuf}, w.HeadsSorted → (writeInterface v w).HeadsSorted
  | .bytes b, _, h => h.encodeString b
  | .list vs, w, h => by
    rw [writeInterface, Encbuf.list_eq]
    exact (headsSorted_writeInterfaces vs h.list).listEnd _

theorem headsSorted_writeInterfaces : ∀ (vs : List Value) {w : Encbuf}, w.HeadsSorted →
    (writeInterfaces vs w).HeadsSorted
  | [], _, h => h
  | v :: vs, _, h => headsSorted_writeInterfaces vs (headsSorted_writeInterface v h)

end

/-- `EncodeToBytes` of a typed value gives the RLP encoding of its value. -/
theorem Dyn.encodeToBytes_eq (val : Dyn) (h : val.toValue.encode.length < 2 ^ 64) :
    val.encodeToBytes = val.toValue.encode := by
  obtain ⟨S, H, d, hw, -, hwr⟩ := writeInterface_spec val.toValue Encbuf.empty h
  rw [Dyn.encodeToBytes, makeWriter_eq, toBytes, hw]
  show copyHeads ([] ++ S) ([] ++ H) 0 = _
  -- the empty buffer: everything is written from position zero, and nothing comes after
  rw [List.nil_append, List.nil_append, hwr.copyHeads_self]

/-- `Encode` of a typed value writes the RLP encoding of its value. -/
theorem encode_eq (out : List UInt8) (val : Dyn) (h : val.toValue.encode.length < 2 ^ 64) :
    encode out val = out ++ val.toValue.encode := by
  have hs := headsSorted_writeInterface val.toValue HeadsSorted.empty
  rw [← makeWriter_eq] at hs
  rw [encode, toWriter_eq_toBytes hs, ← val.encodeToBytes_eq h]
  rfl


/-! ### The strings of typed values -/

theorem toNat_uintBytes (i : UInt64) : BigEndian.toNat (uintBytes i) = i.toNat := by
  unfold uintBytes
  split_ifs with h0
  · rw [h0]
    rfl
  · exact toNat_putint i

/-- Each string spells its value, so no two values share one. -/
theorem uintBytes_inj {i j : UInt64} (h : uintBytes i = uintBytes j) : i = j :=
  UInt64.toNat_inj.1 (by rw [← toNat_uintBytes, h, toNat_uintBytes])

theorem uint256Bytes_inj {x y : BitVec 256} (h : uint256Bytes x = uint256Bytes y) : x = y :=
  BitVec.eq_of_toNat_eq (by rw [← toNat_uint256Bytes, h, toNat_uint256Bytes])

theorem boolBytes_inj {a b : Bool} (h : boolBytes a = boolBytes b) : a = b := by
  cases a <;> cases b <;> simp_all [boolBytes]

theorem length_uintBytes_le (i : UInt64) : (uintBytes i).length ≤ 8 := by
  unfold uintBytes
  split_ifs
  · exact Nat.zero_le _
  · rw [length_putint]
    exact putintSize_le i

theorem length_uint256Bytes_le (x : BitVec 256) : (uint256Bytes x).length ≤ 32 := by
  rw [uint256Bytes, BigEndian.length_ofNat]
  by_cases h0 : x = 0
  · simp [byteLen, h0]
  · exact (byteLen_spec h0).2.1

theorem length_boolBytes_le (b : Bool) : (boolBytes b).length ≤ 1 := by
  cases b <;> simp [boolBytes]

/-- A header is at most nine bytes: a tag and eight bytes of size. -/
theorem length_puthead_le (smalltag largetag : UInt8) (size : UInt64) : (puthead smalltag largetag size).length ≤ 9 := by
  unfold puthead
  split_ifs
  · simp
  · rw [List.length_cons, length_putint]
    have := putintSize_le size
    omega

theorem length_encode_bytes_le (b : List UInt8) : (Value.bytes b).encode.length ≤ b.length + 9 := by
  rw [Value.encode]
  split_ifs
  · omega
  · rw [List.length_append]
    have := length_puthead_le 0x80 0xB7 (UInt64.ofNat b.length)
    omega

theorem length_encode_list_le (vs : List Value) : (Value.list vs).encode.length ≤ (Value.encodeAll vs).length + 9 := by
  rw [Value.encode, List.length_append]
  have := length_puthead_le 0xC0 0xF7 (UInt64.ofNat (Value.encodeAll vs).length)
  omega

end AmazeChain.Rlp
