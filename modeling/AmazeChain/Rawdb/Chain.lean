import AmazeChain.Common.Block
import Mathlib.Logic.Function.Basic

/-!
# Headers in the chain database

`WriteHeader`, `ReadHeader`, `ReadHeaderNumber` and `WriteBlock` of `modules/rawdb/accessors_chain.go`.  A
header is stored twice: its number under its hash (`HeaderNumber`), and its protobuf message under the
number and the hash (`Headers`).  The `Headers` table holds the message `proto.Marshal` encoded and
`proto.Unmarshal` gives it back; its bytes are empty exactly when the message is `PbHeader.empty`.  The
other tables of a block (bodies, transactions, verifiers, rewards) are `rest`: only `WriteBody` writes
them, and it is a parameter here.

What a block write does to its header (`writeBlock_readHeader`): with a nil `BaseFee` it is a panic,
and otherwise the header read back is the block's header with a zero `MixDigest`, the one field the
message has no slot for.  Writes of other headers leave it alone (`readHeader_writeHeader_of_ne`).
-/

namespace AmazeChain.Rawdb

open Utils BigEndian Common

structure ChainDb (Rest : Type) where
  headerNumber : List UInt8 → Option (List UInt8)
  headers : List UInt8 → Option PbHeader
  rest : Rest

variable {Rest Body Err : Type}

/-- `modules.HeaderKey`: the number, big-endian, then the hash. -/
def headerKey (number : UInt64) (hash : Bytes 32) : List UInt8 := putUint64 number ++ hash.toList

def readHeaderNumber (db : ChainDb Rest) (hash : Bytes 32) : Option UInt64 :=
  -- an absent key reads as no bytes; anything but eight bytes is a nil number
  (db.headerNumber hash.toList).bind fun data => if data.length = 8 then some (uint64 data) else none

/-- `ReadHeader`: the outer `none` is a panic of `FromProtoMessage`, the inner one a nil header. -/
def readHeader (db : ChainDb Rest) (hash : Bytes 32) (number : UInt64) : Option (Option Header) :=
  match db.headers (headerKey number hash) with
  | none => some none
  | some pb => if pb = PbHeader.empty then some none else (Header.zero.fromProtoMessage pb).map some

def writeHeader (jsonHash : Header → Bytes 32) (db : ChainDb Rest) (header : Header) : Option (ChainDb Rest) := do
  let hash ← header.hash jsonHash
  let number ← header.number
  let db := { db with headerNumber := Function.update db.headerNumber hash.toList (some (putUint64 number.w0)) }
  let pb ← header.toProtoMessage
  pure { db with headers := Function.update db.headers (headerKey number.w0 hash) (some pb) }

/-- `WriteBlock`: the body under the block's hash and number, then a copy of the header. -/
def writeBlock (jsonHash : Header → Bytes 32) (writeBody : Rest → Bytes 32 → UInt64 → Body → Except Err Rest)
    (db : ChainDb Rest) (b : Block Body) : Option (Except Err (ChainDb Rest)) := do
  let hash ← b.hash jsonHash
  let number ← b.header.number
  match writeBody db.rest hash number.w0 b.body with
  | .error e => pure (.error e)
  | .ok rest => (writeHeader jsonHash { db with rest } (copyHeader b.header)).map .ok

theorem headerKey_injective {n n' : UInt64} {hash hash' : Bytes 32} (h : headerKey n hash = headerKey n' hash') :
    n = n' ∧ hash = hash' := by
  obtain ⟨hn, hhash⟩ := List.append_inj h (by simp)
  exact ⟨by rw [← uint64_putUint64 n, hn, uint64_putUint64], List.Vector.toList_injective hhash⟩

/-- Everything `WriteHeader` can do: fail, or write the two entries of one header. -/
theorem writeHeader_eq_some {jsonHash : Header → Bytes 32} {db db' : ChainDb Rest} {header : Header}
    (h : writeHeader jsonHash db header = some db') :
    ∃ hash n pb, header.hash jsonHash = some hash ∧ header.number = some n ∧ header.toProtoMessage = some pb ∧
      db' = { db with
        headerNumber := Function.update db.headerNumber hash.toList (some (putUint64 n.w0)),
        headers := Function.update db.headers (headerKey n.w0 hash) (some pb) } := by
  simp only [writeHeader, Option.bind_eq_bind, Option.pure_def, Option.bind_eq_some_iff, Option.some.injEq] at h
  obtain ⟨hash, hhash, n, hn, pb, hpb, rfl⟩ := h
  exact ⟨hash, n, pb, hhash, hn, hpb, rfl⟩

theorem writeHeader_eq_none {jsonHash : Header → Bytes 32} (db : ChainDb Rest) {header : Header}
    (hf : header.baseFee = none) : writeHeader jsonHash db header = none := by
  simp [writeHeader, Header.toProtoMessage_eq_none hf]

/-- A written header reads back with the mix digest of `new(block.Header)`. -/
theorem readHeader_writeHeader {jsonHash : Header → Bytes 32} {db db' : ChainDb Rest} {header : Header}
    {hash : Bytes 32} {n : Uint256} (h : writeHeader jsonHash db header = some db')
    (hhash : header.hash jsonHash = some hash) (hn : header.number = some n) :
    readHeader db' hash n.w0 = some (some { header with mixDigest := zeroBytes 32 }) := by
  obtain ⟨hash', n', pb, hhash', hn', hpb, rfl⟩ := writeHeader_eq_some h
  obtain rfl : hash' = hash := Option.some_injective _ (hhash'.symm.trans hhash)
  obtain rfl : n' = n := Option.some_injective _ (hn'.symm.trans hn)
  -- the stored message has its parent hash set, so its bytes are not empty
  have hne : pb ≠ PbHeader.empty := by
    intro hempty
    simp only [Header.toProtoMessage, Option.bind_eq_bind, Option.pure_def, Option.bind_eq_some_iff,
      Option.some.injEq] at hpb
    obtain ⟨_, _, _, _, _, _, _, _, hmsg⟩ := hpb
    rw [hempty] at hmsg
    cases hmsg
  simp only [readHeader, Function.update_self, if_neg hne, Header.fromProtoMessage_toProtoMessage _ _ hpb]
  rfl

theorem readHeaderNumber_writeHeader {jsonHash : Header → Bytes 32} {db db' : ChainDb Rest} {header : Header}
    {hash : Bytes 32} {n : Uint256} (h : writeHeader jsonHash db header = some db')
    (hhash : header.hash jsonHash = some hash) (hn : header.number = some n) :
    readHeaderNumber db' hash = some n.w0 := by
  obtain ⟨hash', n', pb, hhash', hn', -, rfl⟩ := writeHeader_eq_some h
  obtain rfl : hash' = hash := Option.some_injective _ (hhash'.symm.trans hhash)
  obtain rfl : n' = n := Option.some_injective _ (hn'.symm.trans hn)
  simp [readHeaderNumber]

/-- Writing a header with another hash leaves what is read under a hash unchanged. -/
theorem readHeader_writeHeader_of_ne {jsonHash : Header → Bytes 32} {db db' : ChainDb Rest} {header : Header}
    {hash hash' : Bytes 32} (h : writeHeader jsonHash db header = some db')
    (hhash : header.hash jsonHash = some hash') (hne : hash' ≠ hash) (number : UInt64) :
    readHeader db' hash number = readHeader db hash number ∧ readHeaderNumber db' hash = readHeaderNumber db hash := by
  obtain ⟨hash'', n, pb, hhash'', -, -, rfl⟩ := writeHeader_eq_some h
  obtain rfl : hash'' = hash' := Option.some_injective _ (hhash''.symm.trans hhash)
  have hkey : headerKey number hash ≠ headerKey n.w0 hash'' := fun hk => hne (headerKey_injective hk).2.symm
  have hbytes : hash.toList ≠ hash''.toList := fun hb => hne (List.Vector.toList_injective hb).symm
  exact ⟨by simp only [readHeader, Function.update_of_ne hkey], by simp only [readHeaderNumber,
    Function.update_of_ne hbytes]⟩

theorem hash_copyHeader (jsonHash : Header → Bytes 32) {h : Header} {n : Uint256} (hn : h.number = some n) :
    (copyHeader h).hash jsonHash = h.hash jsonHash := by
  simp [Header.hash, copyHeader, hn]

theorem copyHeader_eq {h : Header} {d n : Uint256} (hd : h.difficulty = some d) (hn : h.number = some n) :
    copyHeader h = h := by
  cases h
  simp_all [copyHeader]

/-- Reading back a block's header after `WriteBlock`: a nil `BaseFee` is a panic, and otherwise the header
comes back with a zero `MixDigest`. -/
theorem writeBlock_readHeader (jsonHash : Header → Bytes 32)
    (writeBody : Rest → Bytes 32 → UInt64 → Body → Except Err Rest) (db : ChainDb Rest) (b : Block Body)
    (d n : Uint256) (hash : Bytes 32) (rest : Rest) (hd : b.header.difficulty = some d)
    (hn : b.header.number = some n) (hhash : b.hash jsonHash = some hash)
    (hbody : writeBody db.rest hash n.w0 b.body = .ok rest) :
    (b.header.baseFee = none → writeBlock jsonHash writeBody db b = none) ∧
    (b.header.baseFee ≠ none → ∃ db', writeBlock jsonHash writeBody db b = some (.ok db') ∧ db'.rest = rest ∧
      readHeaderNumber db' hash = some n.w0 ∧
      readHeader db' hash n.w0 = some (some { b.header with mixDigest := zeroBytes 32 })) := by
  have hcopy := copyHeader_eq hd hn
  have hwrite : writeBlock jsonHash writeBody db b = (writeHeader jsonHash { db with rest } b.header).map .ok := by
    simp [writeBlock, hhash, hn, hbody, hcopy]
  refine ⟨fun hf => by rw [hwrite, writeHeader_eq_none _ hf, Option.map_none], fun hf => ?_⟩
  -- the header has its three `uint256` fields, so it has a message and is written
  obtain ⟨f, hf⟩ := Option.ne_none_iff_exists'.1 hf
  obtain ⟨pb, hpb⟩ := Option.isSome_iff_exists.1 (Header.toProtoMessage_isSome hd hn hf)
  have hhash' : b.header.hash jsonHash = some hash := by rw [← hash_copyHeader jsonHash hn]; exact hhash
  obtain ⟨db', hdb'⟩ : ∃ db', writeHeader jsonHash { db with rest } b.header = some db' := by
    simp [writeHeader, hhash', hn, hpb]
  obtain ⟨_, _, _, _, _, _, hrest⟩ := writeHeader_eq_some hdb'
  exact ⟨db', by rw [hwrite, hdb', Option.map_some], by rw [hrest], readHeaderNumber_writeHeader hdb' hhash' hn,
    readHeader_writeHeader hdb' hhash' hn⟩

/-- A header with every `uint256` field set and a mix digest that is not zero. -/
def mixedHeader : Header :=
  { Header.zero with
    difficulty := some (Uint256.ofUInt64 1), number := some (Uint256.ofUInt64 1),
    baseFee := some (Uint256.ofUInt64 0), mixDigest := ⟨List.replicate 31 0 ++ [1], rfl⟩ }

/-- An empty database whose only other table is `Unit`. -/
def emptyDb : ChainDb Unit := ⟨fun _ => none, fun _ => none, ()⟩

theorem writeBlock_readHeader_mixedHeader :
    writeBlock (fun h : Header => h.parentHash) (fun r _ _ (_ : Unit) => (Except.ok r : Except Unit Unit)) emptyDb
        ⟨{ mixedHeader with baseFee := none }, ()⟩ = none ∧
    ∃ db', writeBlock (fun h : Header => h.parentHash) (fun r _ _ (_ : Unit) => (Except.ok r : Except Unit Unit))
        emptyDb ⟨mixedHeader, ()⟩ = some (.ok db') ∧
      readHeader db' (zeroBytes 32) 1 = some (some { mixedHeader with mixDigest := zeroBytes 32 }) ∧
      { mixedHeader with mixDigest := zeroBytes 32 } ≠ mixedHeader := by
  have hnil := writeBlock_readHeader (fun h : Header => h.parentHash)
    (fun r _ _ (_ : Unit) => (Except.ok r : Except Unit Unit)) emptyDb ⟨{ mixedHeader with baseFee := none }, ()⟩
    (Uint256.ofUInt64 1) (Uint256.ofUInt64 1) (zeroBytes 32) () rfl rfl rfl rfl
  have hset := writeBlock_readHeader (fun h : Header => h.parentHash)
    (fun r _ _ (_ : Unit) => (Except.ok r : Except Unit Unit)) emptyDb ⟨mixedHeader, ()⟩
    (Uint256.ofUInt64 1) (Uint256.ofUInt64 1) (zeroBytes 32) () rfl rfl rfl rfl
  obtain ⟨db', hwrite, -, -, hread⟩ := hset.2 (by simp [mixedHeader])
  refine ⟨hnil.1 rfl, db', hwrite, hread, fun h => ?_⟩
  have hmix := congrArg Header.mixDigest h
  revert hmix
  decide

end AmazeChain.Rawdb
