import Mathlib.Tactic.Ring
import Mathlib.Data.List.TakeDrop
import Mathlib.Data.Nat.Digits.Defs
import Mathlib.Order.RelClasses

/-!
# Big-endian bytes

A list of bytes spells a number most significant byte first (`toNat`), and `ofNat n k` writes the low `k`
bytes of a number the same way.  Each undoes the other: `toNat (ofNat n k) = n % 256 ^ k`, and
`ofNat (toNat b) b.length = b`.  `uint64`, `putUint64`, `uint32` and `putUint32` are the functions of
`encoding/binary.BigEndian` on words of eight and four bytes.

Byte strings compare bytewise, as `bytes.Compare` and the tables of the database do; this is the lexicographic
order of lists, a strict total order.  Two strings whose first parts have one length compare by those parts first
(`append_lt_append_iff`), and strings of one length compare as their numbers (`lt_iff_toNat_lt`), so the bytes of
block numbers sort as the numbers do (`putUint64_lt_putUint64`).
-/

namespace BigEndian

/-- The number the bytes spell, most significant first. -/
def toNat : List UInt8 → ℕ
  | [] => 0
  | x :: xs => x.toNat * 256 ^ xs.length + toNat xs

/-- The low `k` bytes of a number, most significant first. -/
def ofNat (n : ℕ) : ℕ → List UInt8
  | 0 => []
  | k + 1 => UInt8.ofNat (n / 256 ^ k) :: ofNat n k

@[simp] theorem length_ofNat (n : ℕ) : ∀ k, (ofNat n k).length = k
  | 0 => rfl
  | k + 1 => by rw [ofNat, List.length_cons, length_ofNat n k]

theorem toNat_lt : ∀ b : List UInt8, toNat b < 256 ^ b.length
  | [] => Nat.one_pos
  | x :: xs => by
    have hx : x.toNat < 256 := UInt8.toNat_lt_size x
    have hxs := toNat_lt xs
    rw [toNat, List.length_cons, Nat.pow_succ]
    -- the top byte times the weight of the rest, plus the rest
    calc x.toNat * 256 ^ xs.length + toNat xs < x.toNat * 256 ^ xs.length + 256 ^ xs.length := by omega
      _ = (x.toNat + 1) * 256 ^ xs.length := by ring
      _ ≤ 256 * 256 ^ xs.length := Nat.mul_le_mul_right _ hx
      _ = 256 ^ xs.length * 256 := Nat.mul_comm _ _

theorem toNat_ofNat (n : ℕ) : ∀ k, toNat (ofNat n k) = n % 256 ^ k
  | 0 => by
    show 0 = n % 256 ^ 0
    rw [Nat.pow_zero, Nat.mod_one]
  | k + 1 => by
    rw [ofNat, toNat, length_ofNat, toNat_ofNat n k, Nat.mod_pow_succ]
    simp only [UInt8.toNat_ofNat', Nat.reducePow]
    ring

theorem toNat_append (a b : List UInt8) : toNat (a ++ b) = toNat a * 256 ^ b.length + toNat b := by
  induction a with
  | nil => rw [List.nil_append, toNat, Nat.zero_mul, Nat.zero_add]
  | cons x xs ih =>
    rw [List.cons_append, toNat, toNat, ih, List.length_append, Nat.pow_add]
    ring

/-- Read backwards, the bytes are the digits of their number in base `256`, least significant first. -/
theorem toNat_reverse (l : List UInt8) : toNat l.reverse = Nat.ofDigits 256 (l.map UInt8.toNat) := by
  induction l with
  | nil => rfl
  | cons x xs ih =>
    rw [List.reverse_cons, toNat_append, ih, List.map_cons, Nat.ofDigits_cons]
    simp only [toNat, List.length_singleton, List.length_nil, Nat.pow_one, Nat.pow_zero, Nat.mul_one, Nat.add_zero]
    ring

theorem toNat_replicate_zero : ∀ k, toNat (List.replicate k 0) = 0
  | 0 => rfl
  | k + 1 => by rw [List.replicate_succ, toNat, toNat_replicate_zero k, UInt8.toNat_zero, Nat.zero_mul]

theorem ofNat_zero : ∀ k, ofNat 0 k = List.replicate k 0
  | 0 => rfl
  | k + 1 => by rw [ofNat, ofNat_zero k, Nat.zero_div, List.replicate_succ]; rfl

/-- The bytes of a number do not see multiples of `256 ^ k`. -/
theorem ofNat_add_mul : ∀ (k n c : ℕ), ofNat (n + c * 256 ^ k) k = ofNat n k
  | 0, _, _ => rfl
  | k + 1, n, c => by
    have hpos : 0 < 256 ^ k := Nat.pow_pos (by decide)
    have hsplit : n + c * 256 ^ (k + 1) = n + (c * 256) * 256 ^ k := by ring
    rw [ofNat, ofNat, hsplit, ofNat_add_mul k n (c * 256)]
    congr 1
    -- the top byte: the quotient grows by a multiple of `256`
    apply UInt8.toNat_inj.1
    rw [UInt8.toNat_ofNat', UInt8.toNat_ofNat', Nat.mul_comm (c * 256), Nat.add_mul_div_left _ _ hpos,
      show 2 ^ 8 = 256 from rfl, Nat.add_mul_mod_self_right]

theorem ofNat_toNat : ∀ b : List UInt8, ofNat (toNat b) b.length = b
  | [] => rfl
  | x :: xs => by
    have hpos : 0 < 256 ^ xs.length := Nat.pow_pos (by decide)
    have hrest := toNat_lt xs
    rw [toNat, List.length_cons, ofNat, Nat.add_comm, ofNat_add_mul, ofNat_toNat xs,
      Nat.add_mul_div_right _ _ hpos, Nat.div_eq_of_lt hrest, Nat.zero_add, UInt8.ofNat_toNat]

/-- A leading byte that is not zero puts the number at or above that byte's weight. -/
theorem pow_le_toNat_cons {x : UInt8} (xs : List UInt8) (hx : x ≠ 0) : 256 ^ xs.length ≤ toNat (x :: xs) := by
  have h1 : 1 ≤ x.toNat := Nat.pos_of_ne_zero fun h => hx (UInt8.toNat_inj.1 h)
  rw [toNat]
  calc 256 ^ xs.length = 1 * 256 ^ xs.length := (Nat.one_mul _).symm
    _ ≤ x.toNat * 256 ^ xs.length := Nat.mul_le_mul_right _ h1
    _ ≤ x.toNat * 256 ^ xs.length + toNat xs := Nat.le_add_right _ _

/-- A number that needs all `k + 1` bytes has a leading byte that is not zero. -/
theorem headD_ofNat_ne_zero {n k : ℕ} (hlo : 256 ^ k ≤ n) (hhi : n < 256 ^ (k + 1)) :
    (ofNat n (k + 1)).headD 0 ≠ 0 := by
  have hpos : 0 < 256 ^ k := Nat.pow_pos (by decide)
  have hq1 : 1 ≤ n / 256 ^ k := (Nat.le_div_iff_mul_le hpos).2 (by rw [Nat.one_mul]; exact hlo)
  have hq2 : n / 256 ^ k < 256 := (Nat.div_lt_iff_lt_mul hpos).2 (by rw [← Nat.pow_succ']; exact hhi)
  intro h
  have h0 := congrArg UInt8.toNat h
  rw [ofNat, List.headD_cons, UInt8.toNat_ofNat', Nat.mod_eq_of_lt hq2] at h0
  exact absurd h0 (by simp only [UInt8.toNat_zero]; omega)

/-- `binary.BigEndian.Uint64`: the first eight bytes. -/
def uint64 (b : List UInt8) : UInt64 := UInt64.ofNat (toNat (b.take 8))

/-- `binary.BigEndian.PutUint64`: the eight bytes of a word. -/
def putUint64 (v : UInt64) : List UInt8 := ofNat v.toNat 8

/-- `binary.BigEndian.Uint32`: the first four bytes. -/
def uint32 (b : List UInt8) : UInt32 := UInt32.ofNat (toNat (b.take 4))

/-- `binary.BigEndian.PutUint32`: the four bytes of a word. -/
def putUint32 (v : UInt32) : List UInt8 := ofNat v.toNat 4

@[simp] theorem length_putUint64 (v : UInt64) : (putUint64 v).length = 8 := length_ofNat _ _

@[simp] theorem length_putUint32 (v : UInt32) : (putUint32 v).length = 4 := length_ofNat _ _

@[simp] theorem uint64_putUint64 (v : UInt64) : uint64 (putUint64 v) = v := by
  apply UInt64.toNat_inj.1
  rw [uint64, List.take_of_length_le (by simp), putUint64, toNat_ofNat, UInt64.toNat_ofNat',
    show (256 : ℕ) ^ 8 = 2 ^ 64 from rfl, Nat.mod_mod, Nat.mod_eq_of_lt v.toNat_lt]

@[simp] theorem uint32_putUint32 (v : UInt32) : uint32 (putUint32 v) = v := by
  apply UInt32.toNat_inj.1
  rw [uint32, List.take_of_length_le (by simp), putUint32, toNat_ofNat, UInt32.toNat_ofNat',
    show (256 : ℕ) ^ 4 = 2 ^ 32 from rfl, Nat.mod_mod, Nat.mod_eq_of_lt v.toNat_lt]

theorem putUint64_uint64 {b : List UInt8} (h : b.length = 8) : putUint64 (uint64 b) = b := by
  have hlt : toNat b < 2 ^ 64 := by
    have := toNat_lt b
    rwa [h] at this
  rw [putUint64, uint64, List.take_of_length_le (by omega), UInt64.toNat_ofNat', Nat.mod_eq_of_lt hlt, ← h,
    ofNat_toNat]

theorem putUint32_uint32 {b : List UInt8} (h : b.length = 4) : putUint32 (uint32 b) = b := by
  have hlt : toNat b < 2 ^ 32 := by
    have := toNat_lt b
    rwa [h] at this
  rw [putUint32, uint32, List.take_of_length_le (by omega), UInt32.toNat_ofNat', Nat.mod_eq_of_lt hlt, ← h,
    ofNat_toNat]

theorem uint64_take (b : List UInt8) : uint64 (b.take 8) = uint64 b := by
  rw [uint64, uint64, List.take_take, Nat.min_self]

theorem uint32_take (b : List UInt8) : uint32 (b.take 4) = uint32 b := by
  rw [uint32, uint32, List.take_take, Nat.min_self]

/-- The first `k` words of a list of bytes, eight bytes each. -/
def words (b : List UInt8) (k : ℕ) : List UInt64 := (List.range k).map fun i => uint64 (b.drop (8 * i))

/-- The bytes of a list of words. -/
def unwords (ws : List UInt64) : List UInt8 := ws.flatMap putUint64

@[simp] theorem unwords_cons (w : UInt64) (ws : List UInt64) : unwords (w :: ws) = putUint64 w ++ unwords ws :=
  List.flatMap_cons

@[simp] theorem unwords_nil : unwords [] = [] := rfl

theorem words_succ (b : List UInt8) (k : ℕ) : words b (k + 1) = uint64 b :: words (b.drop 8) k := by
  rw [words, List.range_succ_eq_map, List.map_cons, List.map_map, words]
  congr 1
  refine List.map_congr_left fun i _ => ?_
  rw [Function.comp_apply, List.drop_drop, Nat.mul_succ, Nat.add_comm]

/-- The words of the first `8 k` bytes give those bytes back. -/
theorem unwords_words_of_le : ∀ (k : ℕ) (b : List UInt8), 8 * k ≤ b.length → unwords (words b k) = b.take (8 * k)
  | 0, _, _ => rfl
  | k + 1, b, h => by
    have hrest : 8 * k ≤ (b.drop 8).length := by rw [List.length_drop]; omega
    rw [words_succ, unwords_cons, unwords_words_of_le k _ hrest, ← uint64_take,
      putUint64_uint64 (by rw [List.length_take]; omega), Nat.mul_succ, Nat.add_comm, List.take_add]

/-- A list of `8 k` bytes is the bytes of its `k` words. -/
theorem unwords_words (k : ℕ) (b : List UInt8) (h : b.length = 8 * k) : unwords (words b k) = b := by
  rw [unwords_words_of_le k b h.ge, List.take_of_length_le h.le]

@[simp] theorem length_words (b : List UInt8) (k : ℕ) : (words b k).length = k := by
  rw [words, List.length_map, List.length_range]

@[simp] theorem length_unwords (ws : List UInt64) : (unwords ws).length = 8 * ws.length := by
  induction ws with
  | nil => rfl
  | cons w ws ih => rw [unwords_cons, List.length_append, length_putUint64, ih, List.length_cons]; ring

/-! ### Byte order -/

instance isStrictTotalOrder_bytes : IsStrictTotalOrder (List UInt8) (· < ·) where
  trichotomous a b hab hba := by
    rcases Std.lt_trichotomy a b with h | h | h
    · exact absurd h hab
    · exact h
    · exact absurd h hba
  irrefl a := List.lt_irrefl a
  trans _ _ _ := List.lt_trans

/-- Lists whose first parts have one length compare by those parts, then by the rest. -/
theorem append_lt_append_iff {α : Type} [LT α] {a a' b b' : List α} (h : a.length = a'.length) :
    a ++ b < a' ++ b' ↔ a < a' ∨ a = a' ∧ b < b' := by
  induction a generalizing a' with
  | nil =>
    rw [List.length_nil, eq_comm, List.length_eq_zero_iff] at h
    subst h
    simp
  | cons x xs ih =>
    cases a' with
    | nil => cases h
    | cons y ys =>
      rw [List.length_cons, List.length_cons, Nat.add_right_cancel_iff] at h
      rw [List.cons_append, List.cons_append, List.cons_lt_cons_iff, ih h, List.cons_lt_cons_iff,
        List.cons.injEq]
      constructor
      · rintro (hxy | ⟨rfl, hlt | ⟨rfl, hb⟩⟩)
        · exact .inl (.inl hxy)
        · exact .inl (.inr ⟨rfl, hlt⟩)
        · exact .inr ⟨⟨rfl, rfl⟩, hb⟩
      · rintro ((hxy | ⟨rfl, hlt⟩) | ⟨⟨rfl, rfl⟩, hb⟩)
        · exact .inl hxy
        · exact .inr ⟨rfl, .inl hlt⟩
        · exact .inr ⟨rfl, .inr ⟨rfl, hb⟩⟩

/-- A list starting with a part of the length of another is below it exactly when that part is. -/
theorem append_lt_iff {α : Type} [LT α] {a a' b : List α} (h : a.length = a'.length) : a ++ b < a' ↔ a < a' := by
  have := @append_lt_append_iff α _ a a' b [] h
  rw [List.append_nil] at this
  rw [this]
  simp

theorem append_lt_of_lt {α : Type} [LT α] {a a' b : List α} (h : a.length = a'.length) (hlt : a < a') :
    a ++ b < a' :=
  (append_lt_iff h).2 hlt

/-- A digit and a rest below the weight `B` compare as the pair of the digit and the rest. -/
private theorem mul_add_lt_mul_add_iff {x y r s B : ℕ} (hr : r < B) (hs : s < B) :
    x * B + r < y * B + s ↔ x < y ∨ x = y ∧ r < s := by
  constructor
  · intro h
    rcases lt_trichotomy x y with hxy | rfl | hxy
    · exact .inl hxy
    · exact .inr ⟨rfl, by omega⟩
    · -- a larger digit outweighs any rest
      have : (y + 1) * B ≤ x * B := Nat.mul_le_mul_right _ hxy
      rw [Nat.succ_mul] at this
      omega
  · rintro (hxy | ⟨rfl, hrs⟩)
    · have : (x + 1) * B ≤ y * B := Nat.mul_le_mul_right _ hxy
      rw [Nat.succ_mul] at this
      omega
    · omega

/-- Byte strings of one length compare as the numbers they spell. -/
theorem lt_iff_toNat_lt : ∀ {a b : List UInt8}, a.length = b.length → (a < b ↔ toNat a < toNat b)
  | [], [], _ => by simp [toNat]
  | x :: xs, y :: ys, h => by
    have hlen : xs.length = ys.length := by simpa using h
    rw [List.cons_lt_cons_iff, lt_iff_toNat_lt hlen, toNat, toNat, ← hlen,
      mul_add_lt_mul_add_iff (toNat_lt xs) (hlen ▸ toNat_lt ys), UInt8.lt_iff_toNat_lt, UInt8.toNat_inj]

theorem putUint64_lt_putUint64 {u v : UInt64} : putUint64 u < putUint64 v ↔ u < v := by
  rw [lt_iff_toNat_lt (by simp), putUint64, putUint64, toNat_ofNat, toNat_ofNat, UInt64.lt_iff_toNat_lt,
    show (256 : ℕ) ^ 8 = 2 ^ 64 from rfl, Nat.mod_eq_of_lt u.toNat_lt, Nat.mod_eq_of_lt v.toNat_lt]

theorem take_eq_putUint64 {b : List UInt8} (h : 8 ≤ b.length) : b.take 8 = putUint64 (uint64 b) := by
  rw [← uint64_take, putUint64_uint64 (by rw [List.length_take]; omega)]

@[simp] theorem uint64_putUint64_append (v : UInt64) (b : List UInt8) : uint64 (putUint64 v ++ b) = v := by
  rw [← uint64_take, List.take_left' (length_putUint64 v), uint64_putUint64]

/-- A key that starts with a block number is below the bytes of another exactly when its block is. -/
theorem lt_putUint64_iff {b : List UInt8} {v : UInt64} (h : 8 ≤ b.length) : b < putUint64 v ↔ uint64 b < v := by
  have hlen : (b.take 8).length = (putUint64 v).length := by
    rw [List.length_take, length_putUint64]
    omega
  have hsplit : b = b.take 8 ++ b.drop 8 := (List.take_append_drop 8 b).symm
  calc b < putUint64 v ↔ b.take 8 ++ b.drop 8 < putUint64 v := by rw [← hsplit]
    _ ↔ b.take 8 < putUint64 v := append_lt_iff hlen
    _ ↔ putUint64 (uint64 b) < putUint64 v := by rw [take_eq_putUint64 h]
    _ ↔ uint64 b < v := putUint64_lt_putUint64

/-- Keys that start with block numbers sort by block first. -/
theorem uint64_le_of_lt {b b' : List UInt8} (h : 8 ≤ b.length) (h' : 8 ≤ b'.length) (hlt : b < b') :
    uint64 b ≤ uint64 b' := by
  have hlen : (b.take 8).length = (b'.take 8).length := by
    rw [List.length_take, List.length_take]
    omega
  have hsplit : b.take 8 ++ b.drop 8 < b'.take 8 ++ b'.drop 8 := by
    rw [List.take_append_drop, List.take_append_drop]
    exact hlt
  rw [append_lt_append_iff hlen, take_eq_putUint64 h, take_eq_putUint64 h', putUint64_lt_putUint64] at hsplit
  rcases hsplit with hlt | ⟨heq, -⟩
  · exact UInt64.le_of_lt hlt
  · -- the same first eight bytes: the same block
    have : uint64 b = uint64 b' := by rw [← uint64_putUint64 (uint64 b), heq, uint64_putUint64]
    rw [this]
    exact UInt64.le_refl _

end BigEndian
