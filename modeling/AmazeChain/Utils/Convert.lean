import AmazeChain.Lib.BigEndian
import Mathlib.Data.Vector.Basic

/-!
# The limb messages of the wire format

Hashes, addresses, keys, signatures, blooms and `uint256` values cross the protobuf boundary as trees of
64-bit limbs (`types_pb.H128` .. `H2048`), built and read by the `Convert*` helpers of `utils/util.go`.  A
submessage of a proto3 message may be absent (a nil pointer in Go); the readers dereference every one of
them, so an absent submessage is a panic, `none` here.  A `uint256.Int` is its four little-endian words.

Every writer is undone by its reader (`convertH256ToHash_convertHashToH256` and the others): the limbs
are laid out in the order the reader puts them back.  That is proved once for a list of words
(`BigEndian.unwords_words`) and each helper reduces to it.
-/

namespace AmazeChain.Utils

open BigEndian

/-- A fixed-size Go byte array. -/
abbrev Bytes (n : ℕ) := List.Vector UInt8 n

/-- The zero value of a Go byte array. -/
def zeroBytes (n : ℕ) : Bytes n := List.Vector.replicate n 0

@[simp] theorem toList_zeroBytes (n : ℕ) : (zeroBytes n).toList = List.replicate n 0 := rfl

structure H128 where
  lo : UInt64
  hi : UInt64
  deriving DecidableEq, Repr

structure H160 where
  hi : Option H128
  lo : UInt32
  deriving DecidableEq, Repr

structure H256 where
  lo : Option H128
  hi : Option H128
  deriving DecidableEq, Repr

structure H384 where
  lo : Option H128
  hi : Option H256
  deriving DecidableEq, Repr

structure H512 where
  lo : Option H256
  hi : Option H256
  deriving DecidableEq, Repr

structure H768 where
  lo : Option H384
  hi : Option H384
  deriving DecidableEq, Repr

structure H1024 where
  lo : Option H512
  hi : Option H512
  deriving DecidableEq, Repr

structure H2048 where
  lo : Option H1024
  hi : Option H1024
  deriving DecidableEq, Repr

/-- `uint256.Int`: four words, least significant first. -/
structure Uint256 where
  w0 : UInt64
  w1 : UInt64
  w2 : UInt64
  w3 : UInt64
  deriving DecidableEq, Repr

/-- `uint256.NewInt(v)`. -/
def Uint256.ofUInt64 (v : UInt64) : Uint256 := ⟨v, 0, 0, 0⟩

/-- The number the four words spell. -/
def Uint256.toNat (x : Uint256) : ℕ :=
  x.w0.toNat + 2 ^ 64 * (x.w1.toNat + 2 ^ 64 * (x.w2.toNat + 2 ^ 64 * x.w3.toNat))

/-- The words of a number modulo `2 ^ 256`. -/
def Uint256.ofNat (n : ℕ) : Uint256 :=
  ⟨UInt64.ofNat n, UInt64.ofNat (n / 2 ^ 64), UInt64.ofNat (n / 2 ^ 128), UInt64.ofNat (n / 2 ^ 192)⟩

/-- `z.Add(x, y)`: the sum modulo `2 ^ 256`. -/
def Uint256.add (x y : Uint256) : Uint256 := Uint256.ofNat (x.toNat + y.toNat)

/-- `Int.IsUint64`: the three high words are zero. -/
def Uint256.IsUint64 (x : Uint256) : Prop := x.w1 = 0 ∧ x.w2 = 0 ∧ x.w3 = 0

instance (x : Uint256) : Decidable x.IsUint64 := inferInstanceAs (Decidable (_ ∧ _ ∧ _))

/-- `NewInt(x.Uint64())` is `x` when `x` fits a word. -/
theorem Uint256.ofUInt64_w0 {x : Uint256} (h : x.IsUint64) : Uint256.ofUInt64 x.w0 = x := by
  obtain ⟨h1, h2, h3⟩ := h
  cases x
  simp_all [Uint256.ofUInt64]

/-! ### The helpers -/

def convertH256ToUint256Int (h256 : Option H256) : Option Uint256 := do
  let h256 ← h256
  let hi ← h256.hi
  let lo ← h256.lo
  pure ⟨lo.lo, lo.hi, hi.lo, hi.hi⟩

/-- `ConvertUint256IntToH256`: a nil pointer is a panic. -/
def convertUint256IntToH256 (i : Option Uint256) : Option H256 :=
  i.map fun i => ⟨some ⟨i.w0, i.w1⟩, some ⟨i.w2, i.w3⟩⟩

def convertH256ToHash (h256 : Option H256) : Option (Bytes 32) := do
  let h256 ← h256
  let hi ← h256.hi
  let lo ← h256.lo
  pure ⟨unwords [hi.hi, hi.lo, lo.hi, lo.lo], by simp⟩

def convertHashToH256 (hash : Bytes 32) : H256 :=
  ⟨some ⟨uint64 (hash.toList.drop 24), uint64 (hash.toList.drop 16)⟩,
    some ⟨uint64 (hash.toList.drop 8), uint64 (hash.toList.drop 0)⟩⟩

def convertH160toAddress (h160 : Option H160) : Option (Bytes 20) := do
  let h160 ← h160
  let hi ← h160.hi
  pure ⟨unwords [hi.hi, hi.lo] ++ putUint32 h160.lo, by simp⟩

def convertAddressToH160 (addr : Bytes 20) : H160 :=
  ⟨some ⟨uint64 (addr.toList.drop 8), uint64 (addr.toList.drop 0)⟩, uint32 (addr.toList.drop 16)⟩

def convertH384ToPublicKey (h384 : Option H384) : Option (Bytes 48) := do
  let h384 ← h384
  let hi ← h384.hi
  let hiHi ← hi.hi
  let hiLo ← hi.lo
  let lo ← h384.lo
  pure ⟨unwords [hiHi.hi, hiHi.lo, hiLo.hi, hiLo.lo, lo.hi, lo.lo], by simp⟩

def convertPublicKeyToH384 (p : Bytes 48) : H384 :=
  ⟨some ⟨uint64 (p.toList.drop 40), uint64 (p.toList.drop 32)⟩,
    some ⟨some ⟨uint64 (p.toList.drop 24), uint64 (p.toList.drop 16)⟩,
      some ⟨uint64 (p.toList.drop 8), uint64 (p.toList.drop 0)⟩⟩⟩

/-- The six words of an `H384`, in the order `ConvertH768ToSignature` writes them. -/
def h384Words (h384 : Option H384) : Option (List UInt64) := do
  let h384 ← h384
  let hi ← h384.hi
  let hiHi ← hi.hi
  let hiLo ← hi.lo
  let lo ← h384.lo
  pure [hiHi.hi, hiHi.lo, hiLo.hi, hiLo.lo, lo.hi, lo.lo]

def convertH768ToSignature (h768 : Option H768) : Option (Bytes 96) := do
  let h768 ← h768
  let hi ← h384Words h768.hi
  let lo ← h384Words h768.lo
  -- `PutUint64(b[0:], h768.Hi.Hi.Hi.Hi)` .. `PutUint64(b[88:], h768.Lo.Lo.Lo)`
  let b := unwords (hi ++ lo)
  if h : b.length = 96 then pure ⟨b, h⟩ else none

def convertSignatureToH768 (p : Bytes 96) : H768 :=
  ⟨some ⟨some ⟨uint64 (p.toList.drop 88), uint64 (p.toList.drop 80)⟩,
      some ⟨some ⟨uint64 (p.toList.drop 72), uint64 (p.toList.drop 64)⟩,
        some ⟨uint64 (p.toList.drop 56), uint64 (p.toList.drop 48)⟩⟩⟩,
    some ⟨some ⟨uint64 (p.toList.drop 40), uint64 (p.toList.drop 32)⟩,
      some ⟨some ⟨uint64 (p.toList.drop 24), uint64 (p.toList.drop 16)⟩,
        some ⟨uint64 (p.toList.drop 8), uint64 (p.toList.drop 0)⟩⟩⟩⟩

def convertH512ToHash (h512 : Option H512) : Option (Bytes 64) := do
  let h512 ← h512
  let hi ← h512.hi
  let hiHi ← hi.hi
  let hiLo ← hi.lo
  let lo ← h512.lo
  let loHi ← lo.hi
  let loLo ← lo.lo
  pure ⟨unwords [hiHi.hi, hiHi.lo, hiLo.hi, hiLo.lo, loHi.hi, loHi.lo, loLo.hi, loLo.lo], by simp⟩

/-- `ConvertBytesToH512`: fewer than 64 bytes are padded with zeros first. -/
def convertBytesToH512 (b : List UInt8) : H512 :=
  let b := if b.length < 64 then b ++ List.replicate (64 - b.length) 0 else b
  ⟨some ⟨some ⟨uint64 (b.drop 56), uint64 (b.drop 48)⟩, some ⟨uint64 (b.drop 40), uint64 (b.drop 32)⟩⟩,
    some ⟨some ⟨uint64 (b.drop 24), uint64 (b.drop 16)⟩, some ⟨uint64 (b.drop 8), uint64 (b.drop 0)⟩⟩⟩

def convertH2048ToBloom (h2048 : Option H2048) : Option (Bytes 256) := do
  let h2048 ← h2048
  let hi ← h2048.hi
  let lo ← h2048.lo
  let b0 ← convertH512ToHash hi.hi
  let b1 ← convertH512ToHash hi.lo
  let b2 ← convertH512ToHash lo.hi
  let b3 ← convertH512ToHash lo.lo
  pure ⟨b0.toList ++ b1.toList ++ b2.toList ++ b3.toList, by simp⟩

/-- `ConvertBytesToH2048`: slicing `data[192:]` past the end is a panic. -/
def convertBytesToH2048 (data : List UInt8) : Option H2048 :=
  if data.length < 192 then none
  else some ⟨some ⟨some (convertBytesToH512 (data.drop 192)), some (convertBytesToH512 (data.drop 128))⟩,
    some ⟨some (convertBytesToH512 (data.drop 64)), some (convertBytesToH512 data)⟩⟩

/-! ### Each reader undoes its writer -/

@[simp] theorem convertUint256IntToH256_some (i : Uint256) :
    convertUint256IntToH256 (some i) = some ⟨some ⟨i.w0, i.w1⟩, some ⟨i.w2, i.w3⟩⟩ := rfl

@[simp] theorem convertH256ToUint256Int_limbs (i : Uint256) :
    convertH256ToUint256Int (some ⟨some ⟨i.w0, i.w1⟩, some ⟨i.w2, i.w3⟩⟩) = some i := rfl

/-- A message `ConvertUint256IntToH256` built is of a number, and reads back as it. -/
theorem convertUint256IntToH256_eq_some {i : Option Uint256} {h256 : H256} (h : convertUint256IntToH256 i = some h256) :
    ∃ v, i = some v ∧ convertH256ToUint256Int (some h256) = some v := by
  obtain ⟨v, rfl, rfl⟩ := Option.map_eq_some_iff.1 h
  exact ⟨v, rfl, rfl⟩

/-- A vector of `8 k` bytes is the bytes of its own words. -/
theorem mk_unwords_words {n : ℕ} (b : Bytes n) (k : ℕ) (hk : n = 8 * k) (h) :
    (⟨unwords (words b.toList k), h⟩ : Bytes n) = b :=
  List.Vector.toList_injective (unwords_words k b.toList (b.2.trans hk))

@[simp] theorem convertH256ToHash_convertHashToH256 (hash : Bytes 32) :
    convertH256ToHash (some (convertHashToH256 hash)) = some hash := by
  -- the reader puts the four words back in the order of `words`
  have hread : convertH256ToHash (some (convertHashToH256 hash)) =
      some ⟨unwords (words hash.toList 4), by simp⟩ := rfl
  rw [hread, mk_unwords_words hash 4 rfl]

@[simp] theorem convertH160toAddress_convertAddressToH160 (addr : Bytes 20) :
    convertH160toAddress (some (convertAddressToH160 addr)) = some addr := by
  have hlen : addr.toList.length = 20 := addr.2
  -- two words cover the first sixteen bytes, the last four are one `uint32`
  have hbytes : unwords (words addr.toList 2) ++ putUint32 (uint32 (addr.toList.drop 16)) = addr.toList := by
    rw [unwords_words_of_le 2 _ (by omega), putUint32_uint32 (by rw [List.length_drop]; omega)]
    exact List.take_append_drop 16 addr.toList
  have hread : convertH160toAddress (some (convertAddressToH160 addr)) =
      some ⟨unwords (words addr.toList 2) ++ putUint32 (uint32 (addr.toList.drop 16)), by rw [hbytes]; exact hlen⟩ :=
    rfl
  rw [hread]
  exact congrArg some (List.Vector.toList_injective hbytes)

@[simp] theorem convertH384ToPublicKey_convertPublicKeyToH384 (p : Bytes 48) :
    convertH384ToPublicKey (some (convertPublicKeyToH384 p)) = some p := by
  have hread : convertH384ToPublicKey (some (convertPublicKeyToH384 p)) =
      some ⟨unwords (words p.toList 6), by simp⟩ := rfl
  rw [hread, mk_unwords_words p 6 rfl]

@[simp] theorem convertH768ToSignature_convertSignatureToH768 (p : Bytes 96) :
    convertH768ToSignature (some (convertSignatureToH768 p)) = some p := by
  have hbytes : unwords (words p.toList 12) = p.toList := unwords_words 12 _ p.2
  have hlen : (unwords (words p.toList 12)).length = 96 := by rw [hbytes]; exact p.2
  -- both halves are read in full, so only the length test is left
  have hread : convertH768ToSignature (some (convertSignatureToH768 p)) =
      if h : (unwords (words p.toList 12)).length = 96 then some ⟨_, h⟩ else none := rfl
  rw [hread, dif_pos hlen]
  exact congrArg some (List.Vector.toList_injective hbytes)

/-- At least 64 bytes go through an `H512` as their first 64. -/
theorem convertH512ToHash_convertBytesToH512 (b : List UInt8) (hb : 64 ≤ b.length) :
    convertH512ToHash (some (convertBytesToH512 b)) = some ⟨b.take 64, by rw [List.length_take]; omega⟩ := by
  have hbytes : unwords (words b 8) = b.take 64 := unwords_words_of_le 8 b hb
  -- no padding: the limbs are the first eight words of `b`
  have hread : convertH512ToHash (some (convertBytesToH512 b)) =
      some ⟨unwords (words b 8), by rw [hbytes, List.length_take]; omega⟩ := by
    rw [convertBytesToH512, if_neg (Nat.not_lt.2 hb)]
    rfl
  rw [hread]
  exact congrArg some (List.Vector.toList_injective hbytes)

/-- The four 64-byte quarters of 256 bytes put back together. -/
theorem quarters_append {l : List UInt8} (hl : l.length = 256) :
    l.take 64 ++ (l.drop 64).take 64 ++ (l.drop 128).take 64 ++ (l.drop 192).take 64 = l := by
  have hlast : (l.drop 192).take 64 = l.drop 192 := List.take_of_length_le (by rw [List.length_drop]; omega)
  have hthird : (l.drop 128).take 64 ++ l.drop 192 = l.drop 128 := by
    rw [show l.drop 192 = (l.drop 128).drop 64 by rw [List.drop_drop]]
    exact List.take_append_drop 64 _
  have hsecond : (l.drop 64).take 64 ++ l.drop 128 = l.drop 64 := by
    rw [show l.drop 128 = (l.drop 64).drop 64 by rw [List.drop_drop]]
    exact List.take_append_drop 64 _
  rw [hlast, List.append_assoc, hthird, List.append_assoc, hsecond, List.take_append_drop]

theorem convertH2048ToBloom_convertBytesToH2048 (bloom : Bytes 256) (h2048 : H2048)
    (h : convertBytesToH2048 bloom.toList = some h2048) : convertH2048ToBloom (some h2048) = some bloom := by
  have hlen : bloom.toList.length = 256 := bloom.2
  rw [convertBytesToH2048, if_neg (by omega), Option.some_inj] at h
  subst h
  -- each quarter is at least 64 bytes long, so none is padded
  have h0 := convertH512ToHash_convertBytesToH512 bloom.toList (by omega)
  have h1 := convertH512ToHash_convertBytesToH512 (bloom.toList.drop 64) (by rw [List.length_drop]; omega)
  have h2 := convertH512ToHash_convertBytesToH512 (bloom.toList.drop 128) (by rw [List.length_drop]; omega)
  have h3 := convertH512ToHash_convertBytesToH512 (bloom.toList.drop 192) (by rw [List.length_drop]; omega)
  simp only [convertH2048ToBloom, Option.bind_eq_bind, Option.bind_some, Option.pure_def, h0, h1, h2, h3]
  exact congrArg some (List.Vector.toList_injective (quarters_append hlen))

end AmazeChain.Utils
