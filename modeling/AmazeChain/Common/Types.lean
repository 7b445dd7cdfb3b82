import AmazeChain.Utils.Convert
import Mathlib.Data.Nat.Digits.Lemmas

/-!
# Hashes and addresses from bytes

`Hash.SetBytes`, `BytesToHash`, `Address.SetBytes`, `BytesToAddress`, `Address.Hash`, `FromHex2Bytes`,
`HexToHash` and `BigToHash` of `common/types`.  Their comments promise that a slice is padded on the left
and cropped from the left, which is `padLeft n b`: the last `min (length b) n` bytes of `b`, right-aligned
in `n` zero bytes.

* `Address.SetBytes` does so (`bytesToAddress_eq_padLeft`).
* `Hash.SetBytes` copies only a slice of exactly `HashLength` bytes; on any other length it returns an error
  and leaves the receiver as it was, and `BytesToHash` drops that error.  So `BytesToHash` is the zero hash
  on every other length (`bytesToHash_of_length_ne`), and every helper built on it inherits that:
  `Address.Hash` is the zero hash for every address (`Address.hash_eq_zero`), `BigToHash` is zero on
  `0 < x < 256 ^ 31` and `HexToHash` on fewer than 63 digits.  `conversions_eq_padLeft_iff` says exactly
  where each helper agrees with the documented padding.

A Go string is the list of its bytes.  `hex.DecodeString`, whose error `Hex2Bytes` drops, returns the bytes
of the leading well-formed pairs of digits.  A `big.Int` is an integer, and its `Bytes` are those of its
absolute value, most significant first and without leading zero bytes.
-/

namespace AmazeChain.Common

open Utils BigEndian

/-- `types.HashLength`. -/
abbrev hashLength : ℕ := 32

/-- `types.AddressLength`. -/
abbrev addressLength : ℕ := 20

abbrev Hash := Bytes hashLength

abbrev Address := Bytes addressLength

/-! ### The documented behaviour -/

/-- The last `min (length b) n` bytes of `b`, right-aligned in `n` zero bytes. -/
def padLeft (n : ℕ) (b : List UInt8) : Bytes n :=
  ⟨List.replicate (n - b.length) 0 ++ b.drop (b.length - n), by simp; omega⟩

/-- The `k` bytes of a number, most significant first. -/
def bytesOfNat (v k : ℕ) : Bytes k := ⟨ofNat v k, length_ofNat v k⟩

@[simp] theorem toList_padLeft (n : ℕ) (b : List UInt8) :
    (padLeft n b).toList = List.replicate (n - b.length) 0 ++ b.drop (b.length - n) := rfl

theorem eq_zeroBytes_iff {n : ℕ} (v : Bytes n) : v = zeroBytes n ↔ ∀ x ∈ v.toList, x = 0 := by
  constructor
  · rintro rfl x hx
    rw [toList_zeroBytes] at hx
    exact List.eq_of_mem_replicate hx
  · intro h
    apply List.Vector.eq
    rw [toList_zeroBytes, List.eq_replicate_iff]
    exact ⟨v.toList_length, h⟩

theorem padLeft_eq_zeroBytes_iff (n : ℕ) (b : List UInt8) :
    padLeft n b = zeroBytes n ↔ ∀ x ∈ b.drop (b.length - n), x = 0 := by
  rw [eq_zeroBytes_iff, toList_padLeft]
  simp only [List.mem_append, List.mem_replicate]
  constructor
  · exact fun h x hx => h x (.inr hx)
  · rintro h x (⟨-, rfl⟩ | hx)
    · rfl
    · exact h x hx

theorem bytesOfNat_eq_zeroBytes_iff {v k : ℕ} (hv : v < 256 ^ k) : bytesOfNat v k = zeroBytes k ↔ v = 0 := by
  constructor
  · intro h
    have hnat := congrArg (fun w : Bytes k => toNat w.toList) h
    simp only [bytesOfNat, toList_zeroBytes, toNat_replicate_zero] at hnat
    change toNat (ofNat v k) = 0 at hnat
    rwa [toNat_ofNat, Nat.mod_eq_of_lt hv] at hnat
  · rintro rfl
    exact List.Vector.eq _ _ (ofNat_zero k)

/-! ### `BytesToHash` and `BytesToAddress` -/

/-- `Hash.SetBytes`: a slice of any length but `HashLength` is an error, and the receiver keeps its bytes. -/
def Hash.setBytes (h : Hash) (b : List UInt8) : Hash × Option String :=
  if hb : b.length = hashLength then (⟨b, hb⟩, none)
  else (h, some ("invalid bytes len " ++ toString b.length))

/-- `BytesToHash`: the error of `SetBytes` is dropped. -/
def bytesToHash (b : List UInt8) : Hash := (Hash.setBytes (zeroBytes hashLength) b).1

/-- The slice `Address.SetBytes` copies: a longer one is cut to its last `n` bytes. -/
def cropLeft (n : ℕ) (b : List UInt8) : List UInt8 :=
  if b.length > n then b.drop (b.length - n) else b

theorem cropLeft_eq_drop (n : ℕ) (b : List UInt8) : cropLeft n b = b.drop (b.length - n) := by
  unfold cropLeft
  split
  · rfl
  · rw [Nat.sub_eq_zero_of_le (by omega), List.drop_zero]

theorem length_cropLeft (n : ℕ) (b : List UInt8) : (cropLeft n b).length = min b.length n := by
  rw [cropLeft_eq_drop, List.length_drop]
  omega

/-- `Address.SetBytes`: the cropped slice overwrites the tail of the receiver (Go's `copy` into
`a[AddressLength-len(b):]`). -/
def Address.setBytes (a : Address) (b : List UInt8) : Address :=
  ⟨a.toList.take (addressLength - (cropLeft addressLength b).length) ++ cropLeft addressLength b, by
    rw [List.length_append, List.length_take, a.toList_length, length_cropLeft]
    omega⟩

/-- `BytesToAddress`. -/
def bytesToAddress (b : List UInt8) : Address := Address.setBytes (zeroBytes addressLength) b

/-- `Address.Hash`, which its comment says left-pads the address with zeros. -/
def Address.hash (a : Address) : Hash := bytesToHash a.toList

theorem bytesToHash_of_length_eq {b : List UInt8} (h : b.length = hashLength) : bytesToHash b = ⟨b, h⟩ := by
  rw [bytesToHash, Hash.setBytes, dif_pos h]

theorem bytesToHash_of_length_ne {b : List UInt8} (h : b.length ≠ hashLength) :
    bytesToHash b = zeroBytes hashLength := by
  rw [bytesToHash, Hash.setBytes, dif_neg h]

theorem bytesToAddress_eq_padLeft (b : List UInt8) : bytesToAddress b = padLeft addressLength b := by
  apply List.Vector.eq
  have hlen : addressLength - (cropLeft addressLength b).length = addressLength - b.length := by
    rw [length_cropLeft]
    omega
  rw [toList_padLeft, bytesToAddress, Address.setBytes, List.Vector.toList_mk, hlen, toList_zeroBytes,
    List.take_replicate, cropLeft_eq_drop]
  congr 2
  omega

theorem bytesToHash_eq_padLeft_iff (b : List UInt8) :
    bytesToHash b = padLeft hashLength b ↔ b.length = hashLength ∨ ∀ x ∈ b.drop (b.length - hashLength), x = 0 := by
  by_cases h : b.length = hashLength
  · -- a full slice is copied as it is, which is also its padding
    have hpad : padLeft hashLength b = ⟨b, h⟩ := by
      apply List.Vector.eq
      rw [toList_padLeft, h, Nat.sub_self, List.replicate_zero, List.nil_append, List.drop_zero]
      rfl
    rw [bytesToHash_of_length_eq h, hpad]
    exact iff_of_true rfl (.inl h)
  · rw [bytesToHash_of_length_ne h, eq_comm, padLeft_eq_zeroBytes_iff]
    exact ⟨.inr, fun h' => h'.resolve_left h⟩

theorem Address.hash_eq_zero (a : Address) : a.hash = zeroBytes hashLength :=
  bytesToHash_of_length_ne (by rw [a.toList_length]; decide)

theorem Address.hash_eq_padLeft_iff (a : Address) :
    a.hash = padLeft hashLength a.toList ↔ a = zeroBytes addressLength := by
  rw [Address.hash_eq_zero, eq_comm, padLeft_eq_zeroBytes_iff, a.toList_length, eq_zeroBytes_iff]
  rfl

theorem bytesToAddress_bytesToHash_iff (b : List UInt8) :
    bytesToAddress (bytesToHash b).toList = bytesToAddress b ↔
      b.length = hashLength ∨ ∀ x ∈ b.drop (b.length - addressLength), x = 0 := by
  by_cases h : b.length = hashLength
  · rw [bytesToHash_of_length_eq h]
    exact iff_of_true rfl (.inl h)
  · -- the zero hash is read as the zero address
    have hzero : bytesToAddress (zeroBytes hashLength).toList = zeroBytes addressLength := by
      rw [bytesToAddress_eq_padLeft, padLeft_eq_zeroBytes_iff, toList_zeroBytes]
      intro x hx
      exact List.eq_of_mem_replicate (List.mem_of_mem_drop hx)
    rw [bytesToHash_of_length_ne h, hzero, eq_comm, bytesToAddress_eq_padLeft, padLeft_eq_zeroBytes_iff]
    exact ⟨.inr, fun h' => h'.resolve_left h⟩

/-- Big-endian bytes `bs` of a number `v < 256 ^ 32` give the 32-byte encoding of `v` exactly when they are a
full hash or `v = 0`. -/
theorem bytesToHash_eq_bytesOfNat_iff {bs : List UInt8} {v : ℕ} (hv : toNat bs = v) (hlt : v < 256 ^ hashLength) :
    bytesToHash bs = bytesOfNat v hashLength ↔ bs.length = hashLength ∨ v = 0 := by
  by_cases h : bs.length = hashLength
  · have henc : bytesOfNat v hashLength = ⟨bs, h⟩ := by
      apply List.Vector.eq
      change ofNat v hashLength = bs
      rw [← hv, ← h, ofNat_toNat]
    rw [bytesToHash_of_length_eq h, henc]
    exact iff_of_true rfl (.inl h)
  · rw [bytesToHash_of_length_ne h, eq_comm, bytesOfNat_eq_zeroBytes_iff hlt]
    exact ⟨.inr, fun h' => h'.resolve_left h⟩

/-! ### `BigToHash` -/

/-- `big.Int.Bytes`: the absolute value, most significant byte first, with no leading zero byte. -/
def bigBytes (x : ℤ) : List UInt8 := ((Nat.digits 256 x.natAbs).map UInt8.ofNat).reverse

/-- `BigToHash`. -/
def bigToHash (x : ℤ) : Hash := bytesToHash (bigBytes x)

theorem length_bigBytes (x : ℤ) : (bigBytes x).length = (Nat.digits 256 x.natAbs).length := by
  rw [bigBytes, List.length_reverse, List.length_map]

theorem toNat_bigBytes (x : ℤ) : toNat (bigBytes x) = x.natAbs := by
  have hdigits : ((Nat.digits 256 x.natAbs).map UInt8.ofNat).map UInt8.toNat = Nat.digits 256 x.natAbs := by
    rw [List.map_map]
    conv_rhs => rw [← List.map_id (Nat.digits 256 x.natAbs)]
    refine List.map_congr_left fun d hd => ?_
    have hlt : d < 256 := Nat.digits_lt_base (by decide) hd
    simp only [Function.comp_apply, UInt8.toNat_ofNat', id]
    exact Nat.mod_eq_of_lt hlt
  rw [bigBytes, toNat_reverse, hdigits, Nat.ofDigits_digits]

theorem bigToHash_eq_bytesOfNat_iff {x : ℤ} (h0 : 0 ≤ x) (h1 : x < 2 ^ 256) :
    bigToHash x = bytesOfNat x.toNat hashLength ↔ x = 0 ∨ 256 ^ 31 ≤ x := by
  obtain ⟨n, rfl⟩ := Int.eq_ofNat_of_zero_le h0
  have hn : n < 256 ^ 32 := by exact_mod_cast h1
  have hlen : (bigBytes n).length = 32 ↔ 256 ^ 31 ≤ n := by
    have hle : (Nat.digits 256 n).length ≤ 32 := (Nat.digits_length_le_iff (by decide) n).2 hn
    rw [length_bigBytes, Int.natAbs_natCast, ← Nat.lt_digits_length_iff (by decide)]
    omega
  rw [bigToHash, Int.toNat_natCast, bytesToHash_eq_bytesOfNat_iff (by rw [toNat_bigBytes]; rfl) hn, hlen]
  constructor
  · rintro (h | rfl)
    · exact .inr (by exact_mod_cast h)
    · exact .inl rfl
  · rintro (h | h)
    · exact .inr (by exact_mod_cast h)
    · exact .inl (by exact_mod_cast h)

/-! ### `HexToHash` -/

/-- `fromHexChar` of `encoding/hex`: the value of a hex digit. -/
def fromHexChar (c : UInt8) : Option UInt8 :=
  if 48 ≤ c ∧ c ≤ 57 then some (c - 48)
  else if 97 ≤ c ∧ c ≤ 102 then some (c - 97 + 10)
  else if 65 ≤ c ∧ c ≤ 70 then some (c - 65 + 10)
  else none

/-- `Hex2Bytes`: `hex.DecodeString` with its error dropped, that is, the bytes of the leading well-formed
pairs of digits. -/
def hex2Bytes : List UInt8 → List UInt8
  | p :: q :: s =>
    match fromHexChar p, fromHexChar q with
    | some a, some b => (a <<< 4 ||| b) :: hex2Bytes s
    | _, _ => []
  | _ => []

/-- `has0xPrefix`. -/
def has0xPrefix : List UInt8 → Bool
  | c0 :: c1 :: _ => c0 == 48 && (c1 == 120 || c1 == 88)
  | _ => false

/-- `FromHex2Bytes`: the prefix is cut and an odd string of digits gets a leading zero. -/
def fromHex2Bytes (s : List UInt8) : List UInt8 :=
  let s := if has0xPrefix s then s.drop 2 else s
  let s := if s.length % 2 = 1 then 48 :: s else s
  hex2Bytes s

/-- `HexToHash`. -/
def hexToHash (s : List UInt8) : Hash := bytesToHash (fromHex2Bytes s)

def isHexDigit (c : UInt8) : Bool := (fromHexChar c).isSome

/-- The number a string of hex digits spells, most significant first. -/
def hexNat : List UInt8 → ℕ
  | [] => 0
  | c :: cs => ((fromHexChar c).getD 0).toNat * 16 ^ cs.length + hexNat cs

/-- The prefixes `HexToHash` accepts before the digits. -/
def hexPrefixes : List (List UInt8) := [[], [48, 120], [48, 88]]

theorem fromHexChar_lt {c a : UInt8} (h : fromHexChar c = some a) : a.toNat < 16 := by
  unfold fromHexChar at h
  split_ifs at h with h1 h2 h3 <;> cases h
  · rw [UInt8.toNat_sub_of_le _ _ h1.1]
    simp [UInt8.le_iff_toNat_le] at h1 ⊢
    omega
  · rw [UInt8.toNat_add, UInt8.toNat_sub_of_le _ _ h2.1]
    simp [UInt8.le_iff_toNat_le] at h2 ⊢
    omega
  · rw [UInt8.toNat_add, UInt8.toNat_sub_of_le _ _ h3.1]
    simp [UInt8.le_iff_toNat_le] at h3 ⊢
    omega

/-- Two digits make the byte `16 a + b`. -/
theorem toNat_hexByte {a b : UInt8} (ha : a.toNat < 16) (hb : b.toNat < 16) :
    (a <<< 4 ||| b).toNat = 16 * a.toNat + b.toNat := by
  rw [UInt8.toNat_or, UInt8.toNat_shiftLeft]
  simp only [UInt8.reduceToNat, Nat.reduceMod, Nat.reducePow]
  -- the high digit lands in the upper half of the byte, clear of the low one
  rw [Nat.mod_eq_of_lt (by rw [Nat.shiftLeft_eq]; omega), ← Nat.shiftLeft_add_eq_or_of_lt (by omega),
    Nat.shiftLeft_eq]
  omega

theorem hexNat_lt : ∀ d : List UInt8, hexNat d < 16 ^ d.length
  | [] => Nat.one_pos
  | c :: cs => by
    have hc : ((fromHexChar c).getD 0).toNat < 16 := by
      cases h : fromHexChar c with
      | none => decide
      | some a => exact fromHexChar_lt h
    have hcs := hexNat_lt cs
    rw [hexNat, List.length_cons, Nat.pow_succ]
    calc ((fromHexChar c).getD 0).toNat * 16 ^ cs.length + hexNat cs
        < ((fromHexChar c).getD 0).toNat * 16 ^ cs.length + 16 ^ cs.length := by omega
      _ = (((fromHexChar c).getD 0).toNat + 1) * 16 ^ cs.length := by ring
      _ ≤ 16 * 16 ^ cs.length := Nat.mul_le_mul_right _ hc
      _ = 16 ^ cs.length * 16 := Nat.mul_comm _ _

/-- Decoding a well-formed string of an even number of digits: half as many bytes, spelling the same number. -/
theorem hex2Bytes_spec : ∀ d : List UInt8, (∀ c ∈ d, isHexDigit c) → d.length % 2 = 0 →
    (hex2Bytes d).length = d.length / 2 ∧ toNat (hex2Bytes d) = hexNat d
  | [], _, _ => ⟨rfl, rfl⟩
  | [_], _, h => by simp at h
  | p :: q :: s, hd, h => by
    obtain ⟨a, ha⟩ := Option.isSome_iff_exists.1 (hd p (by simp))
    obtain ⟨b, hb⟩ := Option.isSome_iff_exists.1 (hd q (by simp))
    have hs : s.length % 2 = 0 := by simp at h; omega
    obtain ⟨ih_len, ih_nat⟩ := hex2Bytes_spec s (fun c hc => hd c (by simp [hc])) hs
    obtain ⟨m, hm⟩ : ∃ m, s.length = 2 * m := ⟨s.length / 2, by omega⟩
    have hbyte := toNat_hexByte (fromHexChar_lt ha) (fromHexChar_lt hb)
    simp only [hex2Bytes, ha, hb, List.length_cons, BigEndian.toNat, hexNat, Option.getD_some]
    refine ⟨by omega, ?_⟩
    -- one byte weighs `256 ^ m`, two digits `16 ^ (2 m + 1)` and `16 ^ (2 m)`
    rw [ih_len, ih_nat, hbyte, hm, show 2 * m / 2 = m by omega, pow_succ, pow_mul]
    norm_num
    ring

theorem has0xPrefix_of_hex : ∀ d : List UInt8, (∀ c ∈ d, isHexDigit c) → has0xPrefix d = false
  | [], _ => rfl
  | [_], _ => rfl
  | _ :: c1 :: _, hd => by
    have hc1 : isHexDigit c1 := hd c1 (by simp)
    simp only [has0xPrefix, Bool.and_eq_false_iff, Bool.or_eq_false_iff, beq_eq_false_iff_ne]
    right
    constructor
    · rintro rfl
      exact absurd hc1 (by decide)
    · rintro rfl
      exact absurd hc1 (by decide)

theorem fromHex2Bytes_append {pre d : List UInt8} (hpre : pre ∈ hexPrefixes) (hd : ∀ c ∈ d, isHexDigit c) :
    fromHex2Bytes (pre ++ d) = hex2Bytes (if d.length % 2 = 1 then 48 :: d else d) := by
  simp only [hexPrefixes, List.mem_cons, List.not_mem_nil, or_false] at hpre
  rcases hpre with rfl | rfl | rfl
  · rw [List.nil_append, fromHex2Bytes, has0xPrefix_of_hex d hd]
    rfl
  · rfl
  · rfl

theorem hexToHash_eq_bytesOfNat_iff {pre d : List UInt8} (hpre : pre ∈ hexPrefixes)
    (hd : ∀ c ∈ d, isHexDigit c) (hlen : d.length ≤ 64) :
    hexToHash (pre ++ d) = bytesOfNat (hexNat d) hashLength ↔ 63 ≤ d.length ∨ hexNat d = 0 := by
  -- the digits actually decoded: an odd string gets a leading zero, which spells nothing
  set d' := if d.length % 2 = 1 then 48 :: d else d with hd'
  have hd'_hex : ∀ c ∈ d', isHexDigit c := by
    rw [hd']
    split
    · rintro c (_ | ⟨_, hc⟩)
      · decide
      · exact hd c hc
    · exact hd
  have hd'_len : d'.length = d.length + d.length % 2 := by
    rw [hd']
    split <;> simp <;> omega
  have hd'_nat : hexNat d' = hexNat d := by
    rw [hd']
    split
    · simp [hexNat, fromHexChar]
    · rfl
  obtain ⟨hlen', hnat⟩ := hex2Bytes_spec d' hd'_hex (by omega)
  have hlt : hexNat d < 256 ^ hashLength :=
    calc hexNat d < 16 ^ d.length := hexNat_lt d
      _ ≤ 16 ^ 64 := Nat.pow_le_pow_right (by decide) hlen
      _ = 256 ^ hashLength := by norm_num
  rw [hexToHash, fromHex2Bytes_append hpre hd, ← hd',
    bytesToHash_eq_bytesOfNat_iff (hnat.trans hd'_nat) hlt, hlen', hd'_len]
  have h32 : hashLength = 32 := rfl
  constructor
  · rintro (h | h)
    · exact .inl (by omega)
    · exact .inr h
  · rintro (h | h)
    · exact .inl (by omega)
    · exact .inr h

/-- Where the conversions agree with the documented padding: `BytesToHash` only on full slices (or slices
whose kept bytes are zero), `BytesToAddress` always, `Address.Hash` only on the zero address, `BigToHash`
only on zero and on numbers of 32 bytes, `HexToHash` only on 63 or 64 digits (or the number zero), and the
round trip through a hash only on full slices. -/
theorem conversions_eq_padLeft_iff :
    (∀ b : List UInt8, bytesToHash b = padLeft hashLength b ↔
      b.length = hashLength ∨ ∀ x ∈ b.drop (b.length - hashLength), x = 0) ∧
    (∀ b : List UInt8, bytesToAddress b = padLeft addressLength b) ∧
    (∀ a : Address, a.hash = padLeft hashLength a.toList ↔ a = zeroBytes addressLength) ∧
    (∀ x : ℤ, 0 ≤ x → x < 2 ^ 256 → (bigToHash x = bytesOfNat x.toNat hashLength ↔ x = 0 ∨ 256 ^ 31 ≤ x)) ∧
    (∀ pre d : List UInt8, pre ∈ hexPrefixes → (∀ c ∈ d, isHexDigit c) → d.length ≤ 64 →
      (hexToHash (pre ++ d) = bytesOfNat (hexNat d) hashLength ↔ 63 ≤ d.length ∨ hexNat d = 0)) ∧
    (∀ b : List UInt8, bytesToAddress (bytesToHash b).toList = bytesToAddress b ↔
      b.length = hashLength ∨ ∀ x ∈ b.drop (b.length - addressLength), x = 0) :=
  ⟨bytesToHash_eq_padLeft_iff, bytesToAddress_eq_padLeft, Address.hash_eq_padLeft_iff,
    fun _ h0 h1 => bigToHash_eq_bytesOfNat_iff h0 h1,
    fun _ _ hpre hd hlen => hexToHash_eq_bytesOfNat_iff hpre hd hlen, bytesToAddress_bytesToHash_iff⟩

/-- The one-byte slice `[1]`, the address `0x00..01`, the number `1` and the string `"0x1"`. -/
theorem conversions_eq_padLeft_iff_one :
    bytesToHash [1] ≠ padLeft hashLength [1] ∧
    Address.hash (bytesOfNat 1 addressLength) ≠ padLeft hashLength (bytesOfNat 1 addressLength).toList ∧
    bigToHash 1 ≠ bytesOfNat 1 hashLength ∧
    hexToHash ([48, 120] ++ [49]) ≠ bytesOfNat (hexNat [49]) hashLength ∧
    bytesToAddress (bytesToHash [1]).toList ≠ bytesToAddress [1] := by
  obtain ⟨hbytes, -, haddr, hbig, hhex, hround⟩ := conversions_eq_padLeft_iff
  refine ⟨(hbytes [1]).not.2 (by decide), (haddr _).not.2 (by decide), ?_, ?_, (hround [1]).not.2 (by decide)⟩
  · have h := (hbig 1 (by decide) (by decide)).not.2 (by decide)
    rwa [Int.toNat_one] at h
  · exact (hhex _ _ (by decide) (List.all_eq_true.1 (by decide)) (by decide)).not.2 (by decide)

end AmazeChain.Common
