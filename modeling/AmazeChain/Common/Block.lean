import AmazeChain.Utils.Convert

/-!
# Block headers and their protobuf message

`block.Header` and `types_pb.Header`, with `ToProtoMessage`, `FromProtoMessage`, `CopyHeader` and `Hash` of
`common/block/header.go`.  The message has a slot for every field of the header but `MixDigest`: the
round trip `fromProtoMessage_toProtoMessage` gives back the header with the mix digest of the receiver
`FromProtoMessage` writes into.  `ConvertUint256IntToH256` dereferences its argument, so a header with a
nil `Difficulty`, `Number` or `BaseFee` has no message (`toProtoMessage_eq_none`).

`Hash` is the Keccak hash of the JSON encoding of the header after a nil `BaseFee` and `Difficulty` are set
to zero; the hash of an encoding is the parameter `jsonHash`.  The `hash` cache of the Go record is left
out: `Hash` has a value receiver and stores into its copy.
-/

namespace AmazeChain.Common

open Utils BigEndian

structure Header where
  parentHash : Bytes 32
  coinbase : Bytes 20
  root : Bytes 32
  txHash : Bytes 32
  receiptHash : Bytes 32
  bloom : Bytes 256
  difficulty : Option Uint256
  number : Option Uint256
  gasLimit : UInt64
  gasUsed : UInt64
  time : UInt64
  mixDigest : Bytes 32
  nonce : Bytes 8
  extra : List UInt8
  baseFee : Option Uint256
  signature : Bytes 96
  deriving DecidableEq

/-- `new(block.Header)`. -/
def Header.zero : Header :=
  ⟨zeroBytes 32, zeroBytes 20, zeroBytes 32, zeroBytes 32, zeroBytes 32, zeroBytes 256, none, none, 0, 0, 0,
    zeroBytes 32, zeroBytes 8, [], none, zeroBytes 96⟩

/-- `types_pb.Header`: a submessage may be absent. -/
structure PbHeader where
  parentHash : Option H256
  coinbase : Option H160
  root : Option H256
  txHash : Option H256
  receiptHash : Option H256
  difficulty : Option H256
  number : Option H256
  gasLimit : UInt64
  gasUsed : UInt64
  time : UInt64
  nonce : UInt64
  baseFee : Option H256
  extra : List UInt8
  signature : Option H768
  bloom : Option H2048
  deriving DecidableEq

/-- The message with no field set, the one `proto.Marshal` writes as no bytes. -/
def PbHeader.empty : PbHeader := ⟨none, none, none, none, none, none, none, 0, 0, 0, 0, none, [], none, none⟩

def encodeNonce (i : UInt64) : Bytes 8 := ⟨putUint64 i, length_putUint64 i⟩

/-- `BlockNonce.Uint64`. -/
def nonceUint64 (n : Bytes 8) : UInt64 := uint64 n.toList

theorem encodeNonce_nonceUint64 (n : Bytes 8) : encodeNonce (nonceUint64 n) = n :=
  List.Vector.toList_injective (putUint64_uint64 n.2)

namespace Header

def toProtoMessage (h : Header) : Option PbHeader := do
  let difficulty ← convertUint256IntToH256 h.difficulty
  let number ← convertUint256IntToH256 h.number
  let baseFee ← convertUint256IntToH256 h.baseFee
  let bloom ← convertBytesToH2048 h.bloom.toList
  pure ⟨some (convertHashToH256 h.parentHash), some (convertAddressToH160 h.coinbase),
    some (convertHashToH256 h.root), some (convertHashToH256 h.txHash), some (convertHashToH256 h.receiptHash),
    some difficulty, some number, h.gasLimit, h.gasUsed, h.time, nonceUint64 h.nonce, some baseFee, h.extra,
    some (convertSignatureToH768 h.signature), some bloom⟩

/-- `FromProtoMessage` writes every field of its receiver `h` but `MixDigest`. -/
def fromProtoMessage (h : Header) (pb : PbHeader) : Option Header := do
  let parentHash ← convertH256ToHash pb.parentHash
  let coinbase ← convertH160toAddress pb.coinbase
  let root ← convertH256ToHash pb.root
  let txHash ← convertH256ToHash pb.txHash
  let receiptHash ← convertH256ToHash pb.receiptHash
  let difficulty ← convertH256ToUint256Int pb.difficulty
  let number ← convertH256ToUint256Int pb.number
  let baseFee ← convertH256ToUint256Int pb.baseFee
  let signature ← convertH768ToSignature pb.signature
  let bloom ← convertH2048ToBloom pb.bloom
  pure { h with
    parentHash, coinbase, root, txHash, receiptHash, difficulty := some difficulty, number := some number,
    gasLimit := pb.gasLimit, gasUsed := pb.gasUsed, time := pb.time, nonce := encodeNonce pb.nonce,
    baseFee := some baseFee, extra := pb.extra, signature, bloom }

/-- `Hash`: `Number.Uint64()` in its log line is a panic on a nil number. -/
def hash (jsonHash : Header → Bytes 32) (h : Header) : Option (Bytes 32) :=
  let h := { h with
    baseFee := some (h.baseFee.getD (Uint256.ofUInt64 0)),
    difficulty := some (h.difficulty.getD (Uint256.ofUInt64 0)) }
  h.number.map fun _ => jsonHash h

end Header

/-- `CopyHeader`: a nil `Difficulty` or `Number` becomes zero in the copy, a nil `BaseFee` stays nil. -/
def copyHeader (h : Header) : Header :=
  { h with
    difficulty := some (h.difficulty.getD (Uint256.ofUInt64 0)),
    number := some (h.number.getD (Uint256.ofUInt64 0)) }

structure Block (Body : Type) where
  header : Header
  body : Body

/-- `Block.Hash`, the hash of a copy of the header. -/
def Block.hash {Body : Type} (jsonHash : Header → Bytes 32) (b : Block Body) : Option (Bytes 32) :=
  (copyHeader b.header).hash jsonHash

namespace Header

/-- What `ToProtoMessage` needs: every `uint256` field set.  The bloom always splits. -/
theorem toProtoMessage_isSome {h : Header} {d n f : Uint256} (hd : h.difficulty = some d)
    (hn : h.number = some n) (hf : h.baseFee = some f) : (toProtoMessage h).isSome := by
  have hbloom : (convertBytesToH2048 h.bloom.toList).isSome := by
    have hlen : h.bloom.toList.length = 256 := h.bloom.2
    rw [convertBytesToH2048, if_neg (by omega)]
    rfl
  obtain ⟨bl, hbl⟩ := Option.isSome_iff_exists.1 hbloom
  simp [toProtoMessage, hd, hn, hf, hbl, convertUint256IntToH256]

theorem toProtoMessage_eq_none {h : Header} (hf : h.baseFee = none) : toProtoMessage h = none := by
  simp [toProtoMessage, hf, convertUint256IntToH256]

/-- Every field the message carries comes back; the mix digest is the receiver's. -/
theorem fromProtoMessage_toProtoMessage (h₀ h : Header) {pb : PbHeader} (hpb : toProtoMessage h = some pb) :
    fromProtoMessage h₀ pb = some { h with mixDigest := h₀.mixDigest } := by
  simp only [toProtoMessage, Option.bind_eq_bind, Option.pure_def, Option.bind_eq_some_iff,
    Option.some.injEq] at hpb
  obtain ⟨d, hd, n, hn, f, hf, bl, hbl, rfl⟩ := hpb
  have hbloom := convertH2048ToBloom_convertBytesToH2048 h.bloom bl hbl
  obtain ⟨dv, hdv, hd⟩ := convertUint256IntToH256_eq_some hd
  obtain ⟨nv, hnv, hn⟩ := convertUint256IntToH256_eq_some hn
  obtain ⟨fv, hfv, hf⟩ := convertUint256IntToH256_eq_some hf
  -- each reader undoes its writer
  simp only [fromProtoMessage, Option.bind_eq_bind, Option.pure_def, convertH256ToHash_convertHashToH256,
    convertH160toAddress_convertAddressToH160, convertH768ToSignature_convertSignatureToH768, hbloom,
    Option.bind_some, encodeNonce_nonceUint64, hd, hn, hf]
  rw [← hdv, ← hnv, ← hfv]

end Header

end AmazeChain.Common
