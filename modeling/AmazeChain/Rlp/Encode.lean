import Mathlib.Data.List.TakeDrop
import AmazeChain.Lib.BigEndian

/-!
# RLP encoding

The encoder of `internal/avm/rlp` (`encode.go`) does not write a list's header when the list starts: its length
is not known yet.  `encbuf` keeps the string data `str` apart from the list headers `lheads`; `list` records where
a header goes (its offset in `str`, and the header bytes so far in `lhsize`), `listEnd` computes the list's size
from what was written since and counts the header's own length into `lhsize`, and `toBytes` interleaves the string
data with the headers at their offsets.  A value of `interface{}` is a `[]byte` or an `[]interface{}` (`Value`),
written by `writeBytes` and by the slice writer of `makeSliceWriter`, as `writeInterface` dispatches.

The RLP encoding is also a plain recursive function (`Value.encode`): a single byte below `0x80` is itself, any
other string has a string header, a list has a list header over the encodings of its elements.
`encodeToBytes_eq_encode` shows that the buffered encoder computes it for every value whose encoding fits in
`2 ^ 64` bytes, as `uint64(len)` needs.  The invariant (`Written`) says what writing a value at a position of
`str` leaves: string data and closed list headers that `toBytes` renders as the value's encoding, whatever comes
before and after.  `listEnd` then finds the list's size right because every header written inside the list has
been counted into `lhsize` with its true length (`length_puthead`).

`AppendUint64` writes the integer encoding by a case per byte length; it appends exactly what `encodeUint` writes
(`appendUint64_eq`).
-/

namespace AmazeChain.Rlp

/-! ### Integers and headers -/

/-- `bits.Len64`: the number of bits of `i`, zero for zero. -/
def len64 (i : UInt64) : ℕ := if i = 0 then 0 else i.toNat.log2 + 1

/-- `intsize`: the least number of bytes that hold `i`. -/
def intsize (i : UInt64) : ℕ := (len64 i + 7) / 8

/-- The number of bytes `putint` writes for `i`: that of the first bound of the source's switch below which `i`
lies, so one for zero. -/
def putintSize (i : UInt64) : ℕ :=
  if i.toNat < 2 ^ 8 then 1 else if i.toNat < 2 ^ 16 then 2 else if i.toNat < 2 ^ 24 then 3
  else if i.toNat < 2 ^ 32 then 4 else if i.toNat < 2 ^ 40 then 5 else if i.toNat < 2 ^ 48 then 6
  else if i.toNat < 2 ^ 56 then 7 else 8

/-- `putint`: the low `putintSize i` bytes of `i`, most significant first, as `b[j] = byte(i >> ...)` writes
them. -/
def putint (i : UInt64) : List UInt8 := BigEndian.ofNat i.toNat (putintSize i)

/-- `headsize`: the length of the header of a string or list of `size` bytes. -/
def headsize (size : UInt64) : ℕ := if size.toNat < 56 then 1 else 1 + intsize size

/-- `puthead`: the header of a string (tags `0x80`, `0xB7`) or a list (`0xC0`, `0xF7`) of `size` bytes: the
size in the tag below 56, else the length of the size in the tag and the size after it. -/
def puthead (smalltag largetag : UInt8) (size : UInt64) : List UInt8 :=
  if size.toNat < 56 then [smalltag + size.toUInt8]
  else (largetag + UInt8.ofNat (putint size).length) :: putint size

/-! ### The buffer -/

/-- `listhead`: where a list header goes in the string data, and its list's size once `listEnd` has run (before,
the header bytes counted so far). -/
structure Listhead where
  offset : ℕ
  size : ℕ

/-- `listhead.encode`. -/
def Listhead.encode (head : Listhead) : List UInt8 := puthead 0xC0 0xF7 (UInt64.ofNat head.size)

/-- `encbuf`, without its auxiliary `sizebuf` and `bufvalue`. -/
structure Encbuf where
  /-- string data, everything but the list headers -/
  str : List UInt8
  /-- all list headers -/
  lheads : List Listhead
  /-- the sum of the sizes of the encoded list headers -/
  lhsize : ℕ

namespace Encbuf

/-- A pooled buffer after `reset`. -/
def empty : Encbuf := ⟨[], [], 0⟩

/-- `size`: the length of the encoded data. -/
def size (w : Encbuf) : ℕ := w.str.length + w.lhsize

/-- `encodeStringHeader`. -/
def encodeStringHeader (w : Encbuf) (size : ℕ) : Encbuf :=
  if size < 56 then { w with str := w.str ++ [0x80 + UInt8.ofNat size] }
  else
    let sizesize := putint (UInt64.ofNat size)
    { w with str := w.str ++ ((0xB7 + UInt8.ofNat sizesize.length) :: sizesize) }

/-- `encodeString`: a single byte up to `0x7F` is its own encoding, with no string header. -/
def encodeString (w : Encbuf) (b : List UInt8) : Encbuf :=
  if b.length = 1 ∧ b.headD 0 ≤ 0x7F then { w with str := w.str ++ [b.headD 0] }
  else
    let w := w.encodeStringHeader b.length
    { w with str := w.str ++ b }

/-- `encodeUint`. -/
def encodeUint (w : Encbuf) (i : UInt64) : Encbuf :=
  if i = 0 then { w with str := w.str ++ [0x80] }
  else if i < 128 then { w with str := w.str ++ [i.toUInt8] }
  else
    let s := putint i
    { w with str := w.str ++ ((0x80 + UInt8.ofNat s.length) :: s) }

/-- `list`: a new list header at the end of the string data; the index of the header. -/
def list (w : Encbuf) : Encbuf × ℕ :=
  ({ w with lheads := w.lheads ++ [⟨w.str.length, w.lhsize⟩] }, w.lheads.length)

/-- `listEnd`: the list's size is what was written since its header, string data and headers; the header's own
length goes into `lhsize`.  The source indexes the slice of headers, which panics for an index `list` did not
return; the writers pass only those. -/
def listEnd (w : Encbuf) (index : ℕ) : Encbuf :=
  match w.lheads[index]? with
  | some lh =>
    let size := w.size - lh.offset - lh.size
    { w with
      lheads := w.lheads.set index { lh with size := size }
      lhsize := w.lhsize + if size < 56 then 1 else 1 + intsize (UInt64.ofNat size) }
  | none => w

/-- The loop of `toBytes` from string position `strpos`: the string data up to each header's offset, then the
header; the string data after the last one. -/
def copyHeads (str : List UInt8) : List Listhead → ℕ → List UInt8
  | [], strpos => str.drop strpos
  | head :: heads, strpos =>
    (str.drop strpos).take (head.offset - strpos) ++ head.encode ++ copyHeads str heads head.offset

/-- `toBytes`. -/
def toBytes (w : Encbuf) : List UInt8 := copyHeads w.str w.lheads 0

end Encbuf

/-! ### Values and their writers -/

/-- A value of `interface{}` as the codec reads and writes it: a `[]byte` or an `[]interface{}`. -/
inductive Value where
  | bytes (b : List UInt8)
  | list (vs : List Value)
  deriving Repr

open Encbuf

mutual

/-- `writeInterface`: a `[]byte` by `writeBytes`, an `[]interface{}` by the slice writer, its elements between
`list` and the deferred `listEnd`. -/
def writeInterface : Value → Encbuf → Encbuf
  | .bytes b, w => w.encodeString b
  | .list vs, w =>
    let (w, lh) := w.list
    (writeInterfaces vs w).listEnd lh

/-- The loop of the slice writer over the elements. -/
def writeInterfaces : List Value → Encbuf → Encbuf
  | [], w => w
  | v :: vs, w => writeInterfaces vs (writeInterface v w)

end

/-- `EncodeToBytes` of a value. -/
def encodeToBytes (v : Value) : List UInt8 := (writeInterface v Encbuf.empty).toBytes

mutual

/-- The RLP encoding of a value, by its recursive definition. -/
def Value.encode : Value → List UInt8
  | .bytes b => if b.length = 1 ∧ b.headD 0 ≤ 0x7F then b else puthead 0x80 0xB7 (UInt64.ofNat b.length) ++ b
  | .list vs => puthead 0xC0 0xF7 (UInt64.ofNat (Value.encodeAll vs).length) ++ Value.encodeAll vs

/-- The encodings of a list's elements, one after another: the list's payload. -/
def Value.encodeAll : List Value → List UInt8
  | [] => []
  | v :: vs => v.encode ++ Value.encodeAll vs

end

/-- `AppendUint64`: the integer encoding by a case per byte length. -/
def appendUint64 (b : List UInt8) (i : UInt64) : List UInt8 :=
  if i = 0 then b ++ [0x80]
  else if i < 128 then b ++ [i.toUInt8]
  else if i.toNat < 2 ^ 8 then b ++ [(0x81 : UInt8), i.toUInt8]
  else if i.toNat < 2 ^ 16 then b ++ [(0x82 : UInt8), (i >>> 8).toUInt8, i.toUInt8]
  else if i.toNat < 2 ^ 24 then b ++ [(0x83 : UInt8), (i >>> 16).toUInt8, (i >>> 8).toUInt8, i.toUInt8]
  else if i.toNat < 2 ^ 32 then
    b ++ [(0x84 : UInt8), (i >>> 24).toUInt8, (i >>> 16).toUInt8, (i >>> 8).toUInt8, i.toUInt8]
  else if i.toNat < 2 ^ 40 then
    b ++ [(0x85 : UInt8), (i >>> 32).toUInt8, (i >>> 24).toUInt8, (i >>> 16).toUInt8, (i >>> 8).toUInt8, i.toUInt8]
  else if i.toNat < 2 ^ 48 then
    b ++ [(0x86 : UInt8), (i >>> 40).toUInt8, (i >>> 32).toUInt8, (i >>> 24).toUInt8, (i >>> 16).toUInt8,
      (i >>> 8).toUInt8, i.toUInt8]
  else if i.toNat < 2 ^ 56 then
    b ++ [(0x87 : UInt8), (i >>> 48).toUInt8, (i >>> 40).toUInt8, (i >>> 32).toUInt8, (i >>> 24).toUInt8,
      (i >>> 16).toUInt8, (i >>> 8).toUInt8, i.toUInt8]
  else
    b ++ [(0x88 : UInt8), (i >>> 56).toUInt8, (i >>> 48).toUInt8, (i >>> 40).toUInt8, (i >>> 32).toUInt8,
      (i >>> 24).toUInt8, (i >>> 16).toUInt8, (i >>> 8).toUInt8, i.toUInt8]

/-! ### Byte lengths -/

theorem length_putint (i : UInt64) : (putint i).length = putintSize i := BigEndian.length_ofNat _ _

theorem toNat_ne_zero {i : UInt64} (h : i ≠ 0) : i.toNat ≠ 0 := fun h0 =>
  h (UInt64.toNat_inj.mp (by rw [h0]; rfl))

/-- What the switch of `putint` computes: a length of one to eight bytes that holds `i`, whose leading byte is
needed unless `i` is zero.  Every bound on `putintSize` below is read off this one case split. -/
theorem putintSize_spec (i : UInt64) :
    1 ≤ putintSize i ∧ putintSize i ≤ 8 ∧ i.toNat < 2 ^ (8 * putintSize i) ∧
      (i ≠ 0 → 2 ^ (8 * (putintSize i - 1)) ≤ i.toNat) := by
  unfold putintSize
  -- in each case the bound that selects it is the upper one, the bound before it the lower one
  split_ifs with h1 h2 h3 h4 h5 h6 h7 <;> refine ⟨by decide, by decide, ?_, fun h => ?_⟩
  · exact h1
  · exact Nat.one_le_iff_ne_zero.2 (toNat_ne_zero h)
  · exact h2
  · exact Nat.le_of_not_lt h1
  · exact h3
  · exact Nat.le_of_not_lt h2
  · exact h4
  · exact Nat.le_of_not_lt h3
  · exact h5
  · exact Nat.le_of_not_lt h4
  · exact h6
  · exact Nat.le_of_not_lt h5
  · exact h7
  · exact Nat.le_of_not_lt h6
  · exact i.toNat_lt
  · exact Nat.le_of_not_lt h7

/-- For a nonzero integer the switch of `putint` and the bit length of `intsize` agree. -/
theorem intsize_eq_putintSize {i : UInt64} (h : i ≠ 0) : intsize i = putintSize i := by
  have hn := toNat_ne_zero h
  obtain ⟨-, -, hhi, hlo⟩ := putintSize_spec i
  -- the bounds of the switch are bounds on the bit length
  have h1 := (Nat.le_log2 hn).2 (hlo h)
  have h2 := (Nat.log2_lt hn).2 hhi
  unfold intsize len64
  rw [if_neg h]
  omega

theorem toNat_ofNat_of_lt {n : ℕ} (h : n < 2 ^ 64) : (UInt64.ofNat n).toNat = n := by
  rw [UInt64.toNat_ofNat', Nat.mod_eq_of_lt h]

theorem ofNat_ne_zero {n : ℕ} (h0 : 0 < n) (h64 : n < 2 ^ 64) : UInt64.ofNat n ≠ 0 := fun h => by
  have := congrArg UInt64.toNat h
  rw [toNat_ofNat_of_lt h64, UInt64.toNat_zero] at this
  omega

theorem putintSize_pos (i : UInt64) : 1 ≤ putintSize i := (putintSize_spec i).1

theorem putintSize_le (i : UInt64) : putintSize i ≤ 8 := (putintSize_spec i).2.1

/-- `putint` writes enough bytes for `i`. -/
theorem lt_pow_putintSize (i : UInt64) : i.toNat < 2 ^ (8 * putintSize i) := (putintSize_spec i).2.2.1

/-- ... and no byte too many: the leading one is needed. -/
theorem pow_putintSize_le {i : UInt64} (h : i ≠ 0) : 2 ^ (8 * (putintSize i - 1)) ≤ i.toNat :=
  (putintSize_spec i).2.2.2 h

/-- The switch of `putint` gives the one length `k` whose bounds hold `i`. -/
theorem putintSize_eq_of_bounds {i : UInt64} {k : ℕ} (hk : 1 ≤ k) (hlo : 2 ^ (8 * (k - 1)) ≤ i.toNat)
    (hhi : i.toNat < 2 ^ (8 * k)) : putintSize i = k := by
  have hn : i.toNat ≠ 0 := by have := Nat.one_le_two_pow (n := 8 * (k - 1)); omega
  have hne : i ≠ 0 := fun h0 => hn (by rw [h0]; rfl)
  have h1 := (Nat.le_log2 hn).2 hlo
  have h2 := (Nat.log2_lt hn).2 hhi
  rw [← intsize_eq_putintSize hne]
  unfold intsize len64
  rw [if_neg hne]
  omega

theorem toNat_putint (i : UInt64) : BigEndian.toNat (putint i) = i.toNat := by
  rw [putint, BigEndian.toNat_ofNat, Nat.mod_eq_of_lt]
  rw [show (256 : ℕ) = 2 ^ 8 from rfl, ← Nat.pow_mul]
  exact lt_pow_putintSize i

theorem headD_putint_ne_zero {i : UInt64} (h : i ≠ 0) : (putint i).headD 0 ≠ 0 := by
  obtain ⟨k, hk⟩ : ∃ k, putintSize i = k + 1 := ⟨putintSize i - 1, by have := putintSize_pos i; omega⟩
  have hlo := pow_putintSize_le h
  have hhi := lt_pow_putintSize i
  rw [hk, Nat.add_sub_cancel, Nat.pow_mul] at hlo
  rw [hk, Nat.pow_mul] at hhi
  rw [putint, hk]
  exact BigEndian.headD_ofNat_ne_zero hlo hhi

/-- `putint` writes back the bytes of a number of one to eight bytes with no leading zero. -/
theorem putint_toNat {l : List UInt8} (h1 : 1 ≤ l.length) (h8 : l.length ≤ 8) (hh : l.headD 0 ≠ 0) :
    putint (UInt64.ofNat (BigEndian.toNat l)) = l := by
  obtain ⟨x, xs, rfl⟩ : ∃ x xs, l = x :: xs := by
    cases l with
    | nil => exact absurd h1 (by decide)
    | cons x xs => exact ⟨x, xs, rfl⟩
  have hlt := BigEndian.toNat_lt (x :: xs)
  have hle := BigEndian.pow_le_toNat_cons xs hh
  rw [show (256 : ℕ) = 2 ^ 8 from rfl, ← Nat.pow_mul] at hlt hle
  have h64 : BigEndian.toNat (x :: xs) < 2 ^ 64 :=
    Nat.lt_of_lt_of_le hlt (Nat.pow_le_pow_right (by decide) (by omega))
  have hsize : putintSize (UInt64.ofNat (BigEndian.toNat (x :: xs))) = (x :: xs).length := by
    apply putintSize_eq_of_bounds h1 <;> rw [toNat_ofNat_of_lt h64]
    · simpa using hle
    · exact hlt
  rw [putint, hsize, toNat_ofNat_of_lt h64, BigEndian.ofNat_toNat]

/-- `headsize` is the length of the header `puthead` writes. -/
theorem length_puthead (smalltag largetag : UInt8) (size : UInt64) :
    (puthead smalltag largetag size).length = headsize size := by
  unfold puthead headsize
  split_ifs with h
  · rfl
  · have hne : size ≠ 0 := fun h0 => h (by rw [h0]; decide)
    rw [List.length_cons, length_putint, intsize_eq_putintSize hne, Nat.add_comm]

/-- The byte of a size is the byte of its `uint64`. -/
theorem toUInt8_ofNat (n : ℕ) : (UInt64.ofNat n).toUInt8 = UInt8.ofNat n := by
  apply UInt8.toNat_inj.mp
  rw [UInt64.toNat_toUInt8, UInt64.toNat_ofNat', UInt8.toNat_ofNat', Nat.mod_mod_of_dvd _ (by decide)]

/-- The header `listEnd` counts into `lhsize` is as long as the one `toBytes` writes. -/
theorem listEnd_headsize {size : ℕ} (h : size < 2 ^ 64) :
    (if size < 56 then 1 else 1 + intsize (UInt64.ofNat size)) = (puthead 0xC0 0xF7 (UInt64.ofNat size)).length := by
  rw [length_puthead, headsize, toNat_ofNat_of_lt h]

/-! ### What the buffer's operations do -/

namespace Encbuf

theorem encodeStringHeader_eq (w : Encbuf) {size : ℕ} (h : size < 2 ^ 64) :
    w.encodeStringHeader size = { w with str := w.str ++ puthead 0x80 0xB7 (UInt64.ofNat size) } := by
  unfold encodeStringHeader puthead
  rw [toNat_ofNat_of_lt h, toUInt8_ofNat]
  split_ifs <;> rfl

/-- `encodeString` appends the encoding of the string to the string data. -/
theorem encodeString_eq (w : Encbuf) {b : List UInt8} (h : b.length < 2 ^ 64) :
    w.encodeString b = { w with str := w.str ++ (Value.bytes b).encode } := by
  unfold encodeString
  rw [Value.encode]
  split_ifs with hb
  · -- one byte: the byte is the string
    obtain ⟨x, rfl⟩ := List.length_eq_one_iff.1 hb.1
    rfl
  · rw [encodeStringHeader_eq w h]
    dsimp only
    rw [List.append_assoc]

theorem list_eq (w : Encbuf) :
    w.list = ({ w with lheads := w.lheads ++ [⟨w.str.length, w.lhsize⟩] }, w.lheads.length) := rfl

/-- `listEnd` of the header `list` opened, after string data `S` and closed headers `H`: the list's size is
the string data and the header bytes written since. -/
theorem listEnd_of_list (w : Encbuf) (S : List UInt8) (H : List Listhead) (d : ℕ) :
    (⟨w.str ++ S, w.lheads ++ [⟨w.str.length, w.lhsize⟩] ++ H, w.lhsize + d⟩ : Encbuf).listEnd w.lheads.length =
      ⟨w.str ++ S, w.lheads ++ ⟨w.str.length, S.length + d⟩ :: H,
        w.lhsize + d + if S.length + d < 56 then 1 else 1 + intsize (UInt64.ofNat (S.length + d))⟩ := by
  have hsize : (w.str ++ S).length + (w.lhsize + d) - w.str.length - w.lhsize = S.length + d := by
    rw [List.length_append]
    omega
  unfold listEnd
  rw [List.append_assoc, List.getElem?_append_right (Nat.le_refl _), Nat.sub_self]
  simp only [List.cons_append, List.nil_append, List.getElem?_cons_zero, size, hsize]
  rw [List.set_append_right _ _ (Nat.le_refl _), Nat.sub_self, List.set_cons_zero]

end Encbuf

/-! ### The buffered encoder computes the recursive encoding -/

/-- `copyHeads` from an earlier string position: the string data in between comes first. -/
theorem copyHeads_shift (T : List UInt8) {H : List Listhead} {p q : ℕ} (hpq : p ≤ q)
    (hH : ∀ h ∈ H, q ≤ h.offset) : copyHeads T H p = (T.drop p).take (q - p) ++ copyHeads T H q := by
  cases H with
  | nil =>
    show T.drop p = (T.drop p).take (q - p) ++ T.drop q
    have hq : T.drop q = (T.drop p).drop (q - p) := by rw [List.drop_drop]; congr 1; omega
    rw [hq, List.take_append_drop]
  | cons h H =>
    have ho := hH h (List.mem_cons_self ..)
    show (T.drop p).take (h.offset - p) ++ h.encode ++ copyHeads T H h.offset =
      (T.drop p).take (q - p) ++ ((T.drop q).take (h.offset - q) ++ h.encode ++ copyHeads T H h.offset)
    have hsplit : h.offset - p = (q - p) + (h.offset - q) := by omega
    rw [hsplit, List.take_add, List.drop_drop, Nat.add_sub_cancel' hpq]
    simp only [List.append_assoc]

/-- Writing the encoding `e` at position `base` of the string data left string data `S` and closed list headers
`H`, at or after `base`, that `copyHeads` renders as `e` whatever string data and headers come after. -/
structure Written (e : List UInt8) (base : ℕ) (S : List UInt8) (H : List Listhead) : Prop where
  offsets : ∀ h ∈ H, base ≤ h.offset
  render : ∀ (T : List UInt8) (H' : List Listhead), (T.drop base).take S.length = S →
    (∀ h ∈ H', base + S.length ≤ h.offset) → copyHeads T (H ++ H') base = e ++ copyHeads T H' (base + S.length)

namespace Written

/-- String data alone renders as itself. -/
theorem data (S : List UInt8) (base : ℕ) : Written S base S [] where
  offsets _ h := absurd h List.not_mem_nil
  render T H' hT hH' := by
    rw [List.nil_append, copyHeads_shift T (Nat.le_add_right base S.length) hH', Nat.add_sub_cancel_left, hT]

theorem nil (base : ℕ) : Written [] base [] [] := data [] base

/-- One encoding after another. -/
theorem append {e₁ e₂ S₁ S₂ : List UInt8} {H₁ H₂ : List Listhead} {base : ℕ} (h₁ : Written e₁ base S₁ H₁)
    (h₂ : Written e₂ (base + S₁.length) S₂ H₂) : Written (e₁ ++ e₂) base (S₁ ++ S₂) (H₁ ++ H₂) where
  offsets h hh := by
    rcases List.mem_append.1 hh with hh | hh
    · exact h₁.offsets h hh
    · exact Nat.le_trans (Nat.le_add_right _ _) (h₂.offsets h hh)
  render T H' hT hH' := by
    rw [List.length_append] at hT hH'
    have hlen := congrArg List.length hT
    rw [List.length_take, List.length_append] at hlen
    -- the string data splits where the first encoding's ends
    rw [List.take_add] at hT
    obtain ⟨hT₁, hT₂⟩ := List.append_inj hT (by rw [List.length_take]; omega)
    rw [List.drop_drop] at hT₂
    have hrest : ∀ h ∈ H₂ ++ H', base + S₁.length ≤ h.offset := by
      intro h hh
      rcases List.mem_append.1 hh with hh | hh
      · exact h₂.offsets h hh
      · have := hH' h hh; omega
    rw [List.append_assoc, h₁.render T (H₂ ++ H') hT₁ hrest,
      h₂.render T H' hT₂ (fun h hh => by have := hH' h hh; omega), List.length_append, Nat.add_assoc,
      List.append_assoc]

/-- A list: its header at `base`, of the payload's size, before the payload's headers. -/
theorem list {p S : List UInt8} {H : List Listhead} {base : ℕ} (h : Written p base S H) :
    Written (puthead 0xC0 0xF7 (UInt64.ofNat p.length) ++ p) base S (⟨base, p.length⟩ :: H) where
  offsets hd hh := by
    rcases List.mem_cons.1 hh with rfl | hh
    · exact Nat.le_refl _
    · exact h.offsets hd hh
  render T H' hT hH' := by
    show (T.drop base).take (base - base) ++ Listhead.encode ⟨base, p.length⟩ ++ copyHeads T (H ++ H') base = _
    rw [Nat.sub_self, List.take_zero, List.nil_append, h.render T H' hT hH', List.append_assoc]
    rfl

/-- What was written from the start of an empty buffer, with nothing after it, renders as its encoding. -/
theorem copyHeads_self {e S : List UInt8} {H : List Listhead} (h : Written e 0 S H) : copyHeads S H 0 = e := by
  have hr := h.render S [] (by rw [List.drop_zero, List.take_length]) (fun _ h => absurd h List.not_mem_nil)
  rw [List.append_nil] at hr
  rw [hr]
  show e ++ S.drop (0 + S.length) = e
  rw [Nat.zero_add, List.drop_length, List.append_nil]

end Written

theorem length_encode_lt_of_list {vs : List Value} (h : (Value.list vs).encode.length < 2 ^ 64) :
    (Value.encodeAll vs).length < 2 ^ 64 := by
  rw [Value.encode, List.length_append] at h
  omega

theorem length_encode_lt_of_cons {v : Value} {vs : List Value} (h : (Value.encodeAll (v :: vs)).length < 2 ^ 64) :
    v.encode.length < 2 ^ 64 ∧ (Value.encodeAll vs).length < 2 ^ 64 := by
  rw [Value.encodeAll, List.length_append] at h
  omega

mutual

/-- Writing a value appends string data and closed list headers that render as its encoding, and counts the
headers' bytes into `lhsize`. -/
theorem writeInterface_spec : ∀ (v : Value) (w : Encbuf), v.encode.length < 2 ^ 64 →
    ∃ S H d, writeInterface v w = ⟨w.str ++ S, w.lheads ++ H, w.lhsize + d⟩ ∧ S.length + d = v.encode.length ∧
      Written v.encode w.str.length S H
  | .bytes b, w, h => by
    have hb : b.length < 2 ^ 64 := by
      rw [Value.encode] at h
      split_ifs at h
      · exact h
      · rw [List.length_append] at h; omega
    refine ⟨(Value.bytes b).encode, [], 0, ?_, Nat.add_zero _, Written.data _ _⟩
    rw [writeInterface, Encbuf.encodeString_eq w hb, List.append_nil, Nat.add_zero]
  | .list vs, w, h => by
    have hp := length_encode_lt_of_list h
    obtain ⟨S, H, d, hw, hlen, hwr⟩ := writeInterfaces_spec vs
      { w with lheads := w.lheads ++ [⟨w.str.length, w.lhsize⟩] } hp
    -- `listEnd` finds the payload's size, and counts the header's true length
    refine ⟨S, ⟨w.str.length, (Value.encodeAll vs).length⟩ :: H,
      d + (puthead 0xC0 0xF7 (UInt64.ofNat (Value.encodeAll vs).length)).length, ?_, ?_, hwr.list⟩
    · rw [writeInterface, Encbuf.list_eq]
      dsimp only
      rw [hw]
      dsimp only
      rw [Encbuf.listEnd_of_list, hlen, listEnd_headsize hp, Nat.add_assoc]
    · rw [Value.encode, List.length_append]
      omega

/-- Writing the elements of a list one after another. -/
theorem writeInterfaces_spec : ∀ (vs : List Value) (w : Encbuf), (Value.encodeAll vs).length < 2 ^ 64 →
    ∃ S H d, writeInterfaces vs w = ⟨w.str ++ S, w.lheads ++ H, w.lhsize + d⟩ ∧
      S.length + d = (Value.encodeAll vs).length ∧ Written (Value.encodeAll vs) w.str.length S H
  | [], w, _ => ⟨[], [], 0, by rw [writeInterfaces, List.append_nil, List.append_nil, Nat.add_zero], rfl,
      Written.nil _⟩
  | v :: vs, w, h => by
    obtain ⟨hv, hvs⟩ := length_encode_lt_of_cons h
    obtain ⟨S₁, H₁, d₁, hw₁, hlen₁, hwr₁⟩ := writeInterface_spec v w hv
    obtain ⟨S₂, H₂, d₂, hw₂, hlen₂, hwr₂⟩ := writeInterfaces_spec vs ⟨w.str ++ S₁, w.lheads ++ H₁, w.lhsize + d₁⟩ hvs
    rw [List.length_append] at hwr₂
    refine ⟨S₁ ++ S₂, H₁ ++ H₂, d₁ + d₂, ?_, ?_, hwr₁.append hwr₂⟩
    · rw [writeInterfaces, hw₁, hw₂]
      simp only [List.append_assoc, Nat.add_assoc]
    · rw [Value.encodeAll, List.length_append, List.length_append]
      omega

end

/-- `EncodeToBytes`, which writes string data and list headers apart and interleaves them at the end, gives the
recursive RLP encoding of every value that fits in `2 ^ 64` bytes. -/
theorem encodeToBytes_eq_encode (v : Value) (h : v.encode.length < 2 ^ 64) : encodeToBytes v = v.encode := by
  obtain ⟨S, H, d, hw, -, hwr⟩ := writeInterface_spec v Encbuf.empty h
  unfold encodeToBytes Encbuf.toBytes
  rw [hw]
  show copyHeads ([] ++ S) ([] ++ H) 0 = v.encode
  -- the empty buffer: everything is written from position zero, and nothing comes after
  rw [List.nil_append, List.nil_append, hwr.copyHeads_self]

/-- A list of a long string and a nested list, whose payload needs the long list header. -/
def nestedValue : Value := .list [.bytes (List.replicate 60 7), .list [.bytes [], .bytes [0x80]], .bytes [5]]

theorem encodeToBytes_eq_encode_nestedValue :
    nestedValue.encode.length < 2 ^ 64 ∧ encodeToBytes nestedValue = nestedValue.encode :=
  ⟨by decide, encodeToBytes_eq_encode nestedValue (by decide)⟩

/-! ### `AppendUint64` -/

/-- `byte(i >> s)`: the low byte of `i / 2 ^ s`. -/
theorem toUInt8_shiftRight (i s : UInt64) (hs : s.toNat < 64) :
    (i >>> s).toUInt8 = UInt8.ofNat (i.toNat / 2 ^ s.toNat) := by
  apply UInt8.toNat_inj.mp
  rw [UInt64.toNat_toUInt8, UInt64.toNat_shiftRight, Nat.mod_eq_of_lt hs, Nat.shiftRight_eq_div_pow,
    UInt8.toNat_ofNat']

/-- `AppendUint64` through `putint`: its case per byte length writes the header and the bytes `putint` writes. -/
theorem appendUint64_eq (b : List UInt8) (i : UInt64) : appendUint64 b i =
    b ++ if i = 0 then [0x80] else if i < 128 then [i.toUInt8] else (0x80 + UInt8.ofNat (putint i).length) :: putint i := by
  unfold appendUint64 putint putintSize
  -- the bounds of `putint`'s switch are those of the cases
  split_ifs <;> simp [BigEndian.ofNat, toUInt8_shiftRight]

/-- `AppendUint64` appends what `encodeUint` writes into the buffer, for every integer. -/
theorem encodeUint_str (w : Encbuf) (i : UInt64) : (w.encodeUint i).str = appendUint64 w.str i := by
  rw [appendUint64_eq]
  unfold Encbuf.encodeUint
  split_ifs <;> rfl

end AmazeChain.Rlp
