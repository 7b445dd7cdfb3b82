import AmazeChain.Lib.SortSearch
import AmazeChain.Lib.SortedList
import AmazeChain.Lib.TwosComplement
import AmazeChain.Lib.BigEndian
import Mathlib.Data.List.Basic

/-!
# History index chunks

The history index of a key is the set of blocks that changed it, a `roaring64` bitmap stored cut into chunks
small enough for one database page (`bitmapdb/dbutils.go`).  `CutLeft64` cuts the next chunk off the left of a
bitmap: all of it when it fits the size limit, and otherwise the elements below the first width whose prefix of
the bitmap does not fit, found by `sort.Search` over `int(max - min)`.  `WalkChunks64` cuts until the bitmap is
empty, and `WalkChunkWithKeys64` keys each chunk by the key and the chunk's maximum, the last one by `2^64 - 1`.

A bitmap is the increasing list of the `uint64`s it holds.  The serialized sizes come from `roaring64`, which
the repository does not contain, and are taken as given (`SerializedSize`).

When a one-element bitmap fits the limit, no element is `2^64 - 1` and the bitmap spans less than `2^63`, every
cut takes a nonempty prefix and a cut that leaves something fits the limit (`cutLeft64_spec`), so the walk ends
and its chunks put back together are the bitmap (`chunks64_partitions`).  At the edges of `uint64` it is not so:
`Maximum()+1` wraps to `0`, so a bitmap holding `2^64 - 1` that fits comes out as one empty chunk, and
`int(max - min)` is negative from `2^63` on, so the search returns `0`, the chunk is empty and its maximum panics.
-/

namespace AmazeChain.Bitmapdb

open TwosComplement

/-- A `roaring64.Bitmap`: the `uint64`s it holds, in increasing order. -/
@[ext]
structure Bitmap64 where
  toList : List ℕ
  sorted : toList.Pairwise (· < ·)
  bounded : ∀ x ∈ toList, x < 2 ^ 64

namespace Bitmap64

def empty : Bitmap64 := ⟨[], List.Pairwise.nil, fun _ h => nomatch h⟩

def card (bm : Bitmap64) : ℕ := bm.toList.length

/-- `Minimum()`, which reads the first container: an empty bitmap has none and panics. -/
def minimum (bm : Bitmap64) : Option ℕ := bm.toList.head?

/-- `Maximum()`, which reads the last container: an empty bitmap has none and panics. -/
def maximum (bm : Bitmap64) : Option ℕ := bm.toList.getLast?

/-- A fresh bitmap after `AddRange(a, b)` and `And(bm)`: the elements of `bm` in `[a, b)`. -/
def range (bm : Bitmap64) (a b : ℕ) : Bitmap64 :=
  ⟨bm.toList.filter fun x => a ≤ x ∧ x < b, bm.sorted.filter _,
    fun x hx => bm.bounded x (List.mem_filter.1 hx).1⟩

/-- `RemoveRange(a, b)`. -/
def removeRange (bm : Bitmap64) (a b : ℕ) : Bitmap64 :=
  ⟨bm.toList.filter fun x => ¬ (a ≤ x ∧ x < b), bm.sorted.filter _,
    fun x hx => bm.bounded x (List.mem_filter.1 hx).1⟩

@[simp] theorem toList_empty : empty.toList = [] := rfl

@[simp] theorem toList_range (bm : Bitmap64) (a b : ℕ) :
    (bm.range a b).toList = bm.toList.filter fun x => a ≤ x ∧ x < b := rfl

@[simp] theorem toList_removeRange (bm : Bitmap64) (a b : ℕ) :
    (bm.removeRange a b).toList = bm.toList.filter fun x => ¬ (a ≤ x ∧ x < b) := rfl

theorem card_eq_zero_iff {bm : Bitmap64} : bm.card = 0 ↔ bm.toList = [] := List.length_eq_zero_iff

theorem eq_empty_of_toList {bm : Bitmap64} (h : bm.toList = []) : bm = empty := Bitmap64.ext h

theorem minimum_le {bm : Bitmap64} {a x : ℕ} (ha : bm.minimum = some a) (hx : x ∈ bm.toList) : a ≤ x := by
  obtain ⟨l, hl⟩ := List.head?_eq_some_iff.1 ha
  have hs := bm.sorted
  rw [hl, List.pairwise_cons] at hs
  rw [hl, List.mem_cons] at hx
  rcases hx with rfl | hx
  · exact Nat.le_refl _
  · exact Nat.le_of_lt (hs.1 x hx)

theorem le_maximum {bm : Bitmap64} {b x : ℕ} (hb : bm.maximum = some b) (hx : x ∈ bm.toList) : x ≤ b := by
  have hsplit := List.dropLast_append_getLast? b hb
  have hs := bm.sorted
  rw [← hsplit, List.pairwise_append] at hs
  rw [← hsplit, List.mem_append] at hx
  rcases hx with hx | hx
  · exact Nat.le_of_lt (hs.2.2 x hx b (List.mem_singleton_self b))
  · rw [List.mem_singleton.1 hx]

theorem minimum_mem {bm : Bitmap64} {a : ℕ} (ha : bm.minimum = some a) : a ∈ bm.toList :=
  List.mem_of_mem_head? ha

theorem maximum_mem {bm : Bitmap64} {b : ℕ} (hb : bm.maximum = some b) : b ∈ bm.toList :=
  List.mem_of_getLast? hb

theorem minimum_isSome {bm : Bitmap64} (h : bm.toList ≠ []) : ∃ a, bm.minimum = some a :=
  Option.isSome_iff_exists.1 (List.isSome_head?.2 h)

theorem maximum_isSome {bm : Bitmap64} (h : bm.toList ≠ []) : ∃ b, bm.maximum = some b :=
  Option.isSome_iff_exists.1 (List.getLast?_isSome.2 h)

/-- Above the minimum, the elements below `c` and the others put back together are the bitmap. -/
theorem range_append_removeRange {bm : Bitmap64} {a : ℕ} (ha : bm.minimum = some a) (c : ℕ) :
    (bm.range a c).toList ++ (bm.removeRange a c).toList = bm.toList := by
  have hlow : ∀ x ∈ bm.toList, a ≤ x := fun x hx => minimum_le ha hx
  have hlt : (bm.range a c).toList = bm.toList.filter fun x => x < c := by
    rw [toList_range]
    exact List.filter_congr fun x hx => by simp [hlow x hx]
  have hge : (bm.removeRange a c).toList = bm.toList.filter fun x => !decide (x < c) := by
    rw [toList_removeRange]
    exact List.filter_congr fun x hx => by simp only [hlow x hx, true_and, decide_not]
  -- on an increasing list the elements below `c` are a prefix
  have htake := SortedList.takeWhile_eq_filter (p := fun x => decide (x < c)) bm.sorted
    fun b _ c' _ hbc hc => by simp only [decide_eq_true_eq] at hc ⊢; omega
  have hdrop := SortedList.dropWhile_not_eq_filter (p := fun x => !decide (x < c)) bm.sorted
    fun b _ c' _ hbc hb => by simp only [Bool.not_eq_eq_eq_not, Bool.not_true, decide_eq_false_iff_not] at hb ⊢; omega
  simp only [Bool.not_not] at hdrop
  rw [hlt, hge, ← htake, ← hdrop, List.takeWhile_append_dropWhile]

/-- A range that starts at the minimum and ends just past it holds the minimum alone. -/
theorem toList_range_minimum {bm : Bitmap64} {a : ℕ} (ha : bm.minimum = some a) :
    (bm.range a (a + 1)).toList = [a] := by
  obtain ⟨l, hl⟩ := List.head?_eq_some_iff.1 ha
  have hs := bm.sorted
  rw [hl, List.pairwise_cons] at hs
  -- the rest of the list is above `a`, so it falls outside the range
  have hnone : l.filter (fun x => a ≤ x ∧ x < a + 1) = [] :=
    List.filter_eq_nil_iff.2 fun x hx => by have := hs.1 x hx; simp only [decide_eq_true_eq]; omega
  rw [toList_range, hl, List.filter_cons_of_pos (by simp), hnone]

/-- A bitmap whose minimum is its maximum holds that element alone. -/
theorem toList_eq_singleton {bm : Bitmap64} {a : ℕ} (ha : bm.minimum = some a) (hb : bm.maximum = some a) :
    bm.toList = [a] := by
  obtain ⟨l, hl⟩ := List.head?_eq_some_iff.1 ha
  have hs := bm.sorted
  rw [hl, List.pairwise_cons] at hs
  -- everything after the minimum is above it and at most the maximum
  have hnil : l = [] := List.eq_nil_iff_forall_not_mem.2 fun x hx => by
    have hlt := hs.1 x hx
    have hle := le_maximum hb (hl ▸ List.mem_cons_of_mem a hx)
    omega
  rw [hl, hnil]

theorem maximum_eq_getLastD {bm : Bitmap64} (h : bm.toList ≠ []) : bm.maximum = some (bm.toList.getLastD 0) := by
  rw [maximum, List.getLast?_eq_some_getLast h, List.getLastD_eq_getLast?, List.getLast?_eq_some_getLast h,
    Option.getD_some]

theorem toList_range_of_le {bm : Bitmap64} {a b : ℕ} (h : b ≤ a) : (bm.range a b).toList = [] :=
  List.filter_eq_nil_iff.2 fun x _ => by simp only [decide_eq_true_eq]; omega

theorem toList_removeRange_of_le {bm : Bitmap64} {a b : ℕ} (h : b ≤ a) :
    (bm.removeRange a b).toList = bm.toList :=
  List.filter_eq_self.2 fun x _ => by simp only [decide_eq_true_eq]; omega

/-- The bitmap is away from the edges of `uint64`: no element is `2^64 - 1`, and it spans less than `2^63`. -/
def Cuttable (bm : Bitmap64) : Prop :=
  ∀ x ∈ bm.toList, ∀ y ∈ bm.toList, y < 2 ^ 64 - 1 ∧ y - x < 2 ^ 63

theorem Cuttable.mono {bm bm' : Bitmap64} (h : bm.Cuttable) (hsub : ∀ x ∈ bm'.toList, x ∈ bm.toList) :
    bm'.Cuttable :=
  fun x hx y hy => h x (hsub x hx) y (hsub y hy)

end Bitmap64

/-- The serialized sizes `GetSerializedSizeInBytes` gives, which depend on `roaring64`'s containers: of the
bitmap as its caller holds it, and of a fresh bitmap after `RunOptimize`, which depends on its elements only. -/
structure SerializedSize where
  held : List ℕ → ℕ
  optimized : List ℕ → ℕ

variable (sz : SerializedSize) (sizeLimit : ℕ)

/-- A one-element bitmap fits the limit, as held and after `RunOptimize`. -/
def SingletonsFit : Prop :=
  ∀ x, sz.held [x] ≤ sizeLimit ∧ sz.optimized [x] ≤ sizeLimit

/-- The test `CutLeft64` hands to `sort.Search`: the elements of `bm` in `[from, from + i]` do not fit. -/
def prefixTooBig (bm : Bitmap64) (start i : ℕ) : Bool :=
  sizeLimit < sz.optimized (bm.range start (start + i + 1)).toList

/-- The width `sort.Search(int(minMax), ...)` finds, the source's `to`: a negative `int` is an empty range,
which `toNat` makes `0`. -/
def cutWidth (bm : Bitmap64) (minimum maximum : ℕ) : ℕ :=
  SortSearch.search (toInt64 (maximum - minimum)).toNat (prefixTooBig sz sizeLimit bm minimum)

/-- `CutLeft64`: the chunk cut off the left of `bm`, and what is left of `bm`; `none` is its `nil` for an empty
bitmap.  The sums of the search stay at most the maximum, so only `Maximum()+1` can wrap. -/
def cutLeft64 (bm : Bitmap64) : Option (Bitmap64 × Bitmap64) := do
  let minimum ← bm.minimum
  let maximum ← bm.maximum
  if sz.held bm.toList ≤ sizeLimit then
    return (bm.range minimum ((maximum + 1) % 2 ^ 64), Bitmap64.empty)
  else
    let width := cutWidth sz sizeLimit bm minimum maximum
    return (bm.range minimum (minimum + width), bm.removeRange minimum (minimum + width))

/-- `WalkChunks64`: cut chunks off `bm` and hand each to `f` with whether it is the last, until `bm` is empty.
The loop has no bound, so it runs on fuel; `none` is a panic of `f` or a loop that has not ended. -/
def walkChunks64 {σ : Type} (f : σ → Bitmap64 → Bool → Option σ) : ℕ → σ → Bitmap64 → Option σ
  | 0, _, _ => none
  | fuel + 1, s, bm =>
    -- `CutLeft64` is `nil` exactly when the loop's test `bm.GetCardinality() > 0` fails
    match cutLeft64 sz sizeLimit bm with
    | none => some s
    | some (chunk, rest) => do
      let s' ← f s chunk (rest.card = 0)
      walkChunks64 f fuel s' rest

/-- The key of a chunk: the key it indexes and the chunk's suffix, in big-endian. -/
def chunkKey (k : List UInt8) (suffix : ℕ) : List UInt8 := k ++ BigEndian.putUint64 (UInt64.ofNat suffix)

/-- `WalkChunkWithKeys64`: each chunk keyed by `k` and its maximum, the last one by `2^64 - 1`. -/
def walkChunkWithKeys64 {σ : Type} (k : List UInt8) (f : σ → List UInt8 → Bitmap64 → Option σ) (fuel : ℕ)
    (s : σ) (m : Bitmap64) : Option σ :=
  walkChunks64 sz sizeLimit (fun s chunk isLast =>
    (if isLast then some (2 ^ 64 - 1) else chunk.maximum).bind fun suffix => f s (chunkKey k suffix) chunk) fuel s m

/-- The chunks `WalkChunks64` hands out, each with whether it is the last. -/
def chunks64 : ℕ → Bitmap64 → Option (List (Bitmap64 × Bool))
  | 0, _ => none
  | fuel + 1, bm =>
    match cutLeft64 sz sizeLimit bm with
    | none => some []
    | some (chunk, rest) => ((chunk, decide (rest.card = 0)) :: ·) <$> chunks64 fuel rest

/-! ### One cut -/

/-- Below `2^63` the search runs over the whole span, and stops past a width whose prefix fits. -/
theorem cutWidth_bracket (bm : Bitmap64) {a b : ℕ} (hspan : b - a < 2 ^ 63) :
    cutWidth sz sizeLimit bm a b ≤ b - a ∧
      (cutWidth sz sizeLimit bm a b = 0 ∨ prefixTooBig sz sizeLimit bm a (cutWidth sz sizeLimit bm a b - 1) = false) ∧
      (cutWidth sz sizeLimit bm a b = b - a ∨ prefixTooBig sz sizeLimit bm a (cutWidth sz sizeLimit bm a b) = true) := by
  have hn : (toInt64 (b - a)).toNat = b - a := by rw [toInt64, if_pos hspan, Int.toNat_natCast]
  unfold cutWidth
  rw [hn]
  exact SortSearch.search_bracket (b - a) _

/-- From `2^63` on, `int(minMax)` is negative and the search returns `0`. -/
theorem cutWidth_of_wide (bm : Bitmap64) {a b : ℕ} (hspan : 2 ^ 63 ≤ b - a) (hb : b < 2 ^ 64) :
    cutWidth sz sizeLimit bm a b = 0 := by
  have hn : (toInt64 (b - a)).toNat = 0 := by
    have : ¬ b - a < 2 ^ 63 := by omega
    simp only [toInt64, this, if_false]
    omega
  rw [cutWidth, hn]
  rfl

section Cut

variable {sz sizeLimit}

theorem cutLeft64_eq_none_iff {bm : Bitmap64} : cutLeft64 sz sizeLimit bm = none ↔ bm.toList = [] := by
  constructor
  · intro h
    by_contra hne
    obtain ⟨a, ha⟩ := Bitmap64.minimum_isSome hne
    obtain ⟨b, hb⟩ := Bitmap64.maximum_isSome hne
    simp only [cutLeft64, ha, hb, Option.bind_eq_bind, Option.bind_some] at h
    split_ifs at h
  · intro h
    simp [cutLeft64, Bitmap64.minimum, h]

theorem cutLeft64_of_fits {bm : Bitmap64} {a b : ℕ} (ha : bm.minimum = some a) (hb : bm.maximum = some b)
    (hfits : sz.held bm.toList ≤ sizeLimit) :
    cutLeft64 sz sizeLimit bm = some (bm.range a ((b + 1) % 2 ^ 64), Bitmap64.empty) := by
  simp [cutLeft64, ha, hb, hfits]

theorem cutLeft64_of_too_big {bm : Bitmap64} {a b : ℕ} (ha : bm.minimum = some a) (hb : bm.maximum = some b)
    (hbig : sizeLimit < sz.held bm.toList) :
    cutLeft64 sz sizeLimit bm =
      some (bm.range a (a + cutWidth sz sizeLimit bm a b), bm.removeRange a (a + cutWidth sz sizeLimit bm a b)) := by
  simp [cutLeft64, ha, hb, Nat.not_le.2 hbig]

/-- What one cut does away from the edges of `uint64`: it takes a nonempty prefix of the bitmap, and when it
leaves something the prefix fits the limit. -/
theorem cutLeft64_spec (hfit : SingletonsFit sz sizeLimit) {bm : Bitmap64} (hbm : bm.Cuttable)
    (hne : bm.toList ≠ []) :
    ∃ chunk rest, cutLeft64 sz sizeLimit bm = some (chunk, rest) ∧ chunk.toList ++ rest.toList = bm.toList ∧
      chunk.toList ≠ [] ∧ (rest.toList ≠ [] → sz.optimized chunk.toList ≤ sizeLimit) := by
  obtain ⟨a, ha⟩ := Bitmap64.minimum_isSome hne
  obtain ⟨b, hb⟩ := Bitmap64.maximum_isSome hne
  have hamem := Bitmap64.minimum_mem ha
  obtain ⟨hbedge, hspan⟩ := hbm a hamem b (Bitmap64.maximum_mem hb)
  by_cases hfits : sz.held bm.toList ≤ sizeLimit
  · -- the whole bitmap: `Maximum()+1` does not wrap below `2^64 - 1`
    have hall : (bm.range a ((b + 1) % 2 ^ 64)).toList = bm.toList := by
      rw [Nat.mod_eq_of_lt (by omega), Bitmap64.toList_range]
      exact List.filter_eq_self.2 fun x hx => by
        have h₁ := Bitmap64.minimum_le ha hx
        have h₂ := Bitmap64.le_maximum hb hx
        simp only [decide_eq_true_eq]
        omega
    refine ⟨_, _, cutLeft64_of_fits ha hb hfits, by rw [hall, Bitmap64.toList_empty, List.append_nil],
      by rw [hall]; exact hne, fun h => absurd rfl h⟩
  · have hbig : sizeLimit < sz.held bm.toList := Nat.lt_of_not_le hfits
    obtain ⟨hle, hlow, hhigh⟩ := cutWidth_bracket sz sizeLimit bm hspan
    have htest0 : prefixTooBig sz sizeLimit bm a 0 = false := by
      rw [prefixTooBig, Nat.add_zero, Bitmap64.toList_range_minimum ha]
      simpa using (hfit a).2
    -- the search cannot stop at `0`: the first element fits, and a one-element span would have fitted whole
    have hpos : 0 < cutWidth sz sizeLimit bm a b := by
      refine Nat.pos_of_ne_zero fun h0 => ?_
      rw [h0, htest0] at hhigh
      have hba : b = a := by
        rcases hhigh with h | h
        · have := Bitmap64.minimum_le ha (Bitmap64.maximum_mem hb)
          omega
        · cases h
      subst hba
      rw [Bitmap64.toList_eq_singleton ha hb] at hbig
      exact absurd (hfit b).1 (Nat.not_le.2 hbig)
    refine ⟨_, _, cutLeft64_of_too_big ha hb hbig, Bitmap64.range_append_removeRange ha _, ?_, fun _ => ?_⟩
    · exact List.ne_nil_of_mem (List.mem_filter.2 ⟨hamem, by simp only [decide_eq_true_eq]; omega⟩)
    · -- the width before the one found fits, and its prefix is the chunk
      have hfalse := hlow.resolve_left (Nat.pos_iff_ne_zero.1 hpos)
      have hw : a + (cutWidth sz sizeLimit bm a b - 1) + 1 = a + cutWidth sz sizeLimit bm a b := by omega
      simpa [prefixTooBig, hw] using hfalse

end Cut

/-! ### The walk -/

/-- The last chunk alone is marked last. -/
def LastMarked (cs : List (Bitmap64 × Bool)) : Prop :=
  ∀ (i : ℕ) (h : i < cs.length), cs[i].2 = true ↔ i + 1 = cs.length

theorem LastMarked.tail {c : Bitmap64 × Bool} {cs : List (Bitmap64 × Bool)} (h : LastMarked (c :: cs)) :
    LastMarked cs := fun i hi => by
  have h' := h (i + 1) (by rw [List.length_cons]; omega)
  rw [List.getElem_cons_succ] at h'
  rw [h', List.length_cons]
  omega

theorem LastMarked.head_iff {c : Bitmap64 × Bool} {cs : List (Bitmap64 × Bool)} (h : LastMarked (c :: cs)) :
    c.2 = true ↔ cs = [] := by
  have h' := h 0 (by rw [List.length_cons]; omega)
  rw [List.getElem_cons_zero, List.length_cons] at h'
  rw [h', ← List.length_eq_zero_iff]
  omega

/-- A chunk with chunks after it is not marked last. -/
theorem LastMarked.head_of_ne_nil {c : Bitmap64 × Bool} {cs : List (Bitmap64 × Bool)} (h : LastMarked (c :: cs))
    (hcs : cs ≠ []) : c.2 = false :=
  Bool.eq_false_iff.2 fun hlast => hcs (h.head_iff.1 hlast)

/-- What a walk's chunks are to the bitmap: put back together they are its elements in order, none is empty,
the last one alone is marked last, and every other one fits the limit. -/
structure Partitions (bm : Bitmap64) (cs : List (Bitmap64 × Bool)) : Prop where
  flatten_eq : (cs.map fun c => c.1.toList).flatten = bm.toList
  ne_nil : ∀ c ∈ cs, c.1.toList ≠ []
  marked : LastMarked cs
  fits : ∀ c ∈ cs, c.2 = false → sz.optimized c.1.toList ≤ sizeLimit

section Walk

variable {sz sizeLimit}

theorem Partitions.nil {bm : Bitmap64} (h : bm.toList = []) : Partitions sz sizeLimit bm [] :=
  ⟨by rw [h]; rfl, by simp, fun _ h => absurd h (Nat.not_lt_zero _), by simp⟩

/-- A cut in front of the chunks of what it leaves gives the chunks of the bitmap. -/
theorem Partitions.cons {bm chunk rest : Bitmap64} {cs : List (Bitmap64 × Bool)}
    (hcs : Partitions sz sizeLimit rest cs) (happ : chunk.toList ++ rest.toList = bm.toList)
    (hchunk : chunk.toList ≠ []) (hfits : rest.toList ≠ [] → sz.optimized chunk.toList ≤ sizeLimit) :
    Partitions sz sizeLimit bm ((chunk, decide (rest.card = 0)) :: cs) := by
  -- the cut is the last one exactly when nothing is left, that is when no chunk follows
  have hlast : rest.card = 0 ↔ cs = [] := by
    rw [Bitmap64.card_eq_zero_iff, ← hcs.flatten_eq, List.flatten_eq_nil_iff]
    constructor
    · intro h
      exact List.eq_nil_iff_forall_not_mem.2 fun c hc => hcs.ne_nil c hc (h _ (List.mem_map_of_mem hc))
    · rintro rfl
      simp
  refine ⟨by rw [List.map_cons, List.flatten_cons, hcs.flatten_eq, happ], ?_, ?_, ?_⟩
  · intro c hc
    rcases List.mem_cons.1 hc with rfl | hc
    · exact hchunk
    · exact hcs.ne_nil c hc
  · intro i hi
    cases i with
    | zero => simp [hlast, List.length_eq_zero_iff]
    | succ i =>
      simp only [List.getElem_cons_succ, List.length_cons, Nat.add_right_cancel_iff]
      exact hcs.marked i (by simpa using hi)
  · intro c hc hc2
    rcases List.mem_cons.1 hc with rfl | hc
    · refine hfits fun hnil => ?_
      simp [Bitmap64.card, hnil] at hc2
    · exact hcs.fits c hc hc2

/-- With fuel beyond the cardinality, away from the edges of `uint64`, the walk ends, and its chunks partition
the bitmap: every cut takes at least one element. -/
theorem chunks64_partitions (hfit : SingletonsFit sz sizeLimit) :
    ∀ (fuel : ℕ) (bm : Bitmap64), bm.Cuttable → bm.card < fuel →
      ∃ cs, chunks64 sz sizeLimit fuel bm = some cs ∧ Partitions sz sizeLimit bm cs
  | 0, _, _, hcard => absurd hcard (Nat.not_lt_zero _)
  | fuel + 1, bm, hbm, hcard => by
    by_cases hne : bm.toList = []
    · refine ⟨[], ?_, Partitions.nil hne⟩
      simp [chunks64, cutLeft64_eq_none_iff.2 hne]
    · obtain ⟨chunk, rest, hcut, happ, hchunk, hfits⟩ := cutLeft64_spec hfit hbm hne
      have hrest : rest.Cuttable := hbm.mono fun x hx => happ ▸ List.mem_append_right _ hx
      have hlen : rest.card < fuel := by
        have h₁ := congrArg List.length happ
        have h₂ := List.length_pos_of_ne_nil hchunk
        rw [List.length_append] at h₁
        simp only [Bitmap64.card] at hcard ⊢
        omega
      obtain ⟨cs, hcs, hpart⟩ := chunks64_partitions hfit fuel rest hrest hlen
      exact ⟨_, by simp [chunks64, hcut, hcs], hpart.cons happ hchunk hfits⟩

theorem walkChunks64_of_cut {σ : Type} (f : σ → Bitmap64 → Bool → Option σ) {fuel : ℕ} {s : σ}
    {bm chunk rest : Bitmap64} (hcut : cutLeft64 sz sizeLimit bm = some (chunk, rest)) :
    walkChunks64 sz sizeLimit f (fuel + 1) s bm =
      (f s chunk (decide (rest.card = 0))).bind fun s' => walkChunks64 sz sizeLimit f fuel s' rest := by
  simp [walkChunks64, hcut]

/-- The walk hands `f` the chunks of `chunks64` one after another. -/
theorem walkChunks64_eq_bind {σ : Type} (f : σ → Bitmap64 → Bool → Option σ) :
    ∀ (fuel : ℕ) (s : σ) (bm : Bitmap64), walkChunks64 sz sizeLimit f fuel s bm =
      (chunks64 sz sizeLimit fuel bm).bind fun cs => cs.foldlM (fun s c => f s c.1 c.2) s
  | 0, _, _ => rfl
  | fuel + 1, s, bm => by
    cases hcut : cutLeft64 sz sizeLimit bm with
    | none => simp [walkChunks64, chunks64, hcut]
    | some cut =>
      obtain ⟨chunk, rest⟩ := cut
      rw [walkChunks64_of_cut f hcut]
      simp only [chunks64, hcut]
      -- the walk calls `f` before it cuts again, and `chunks64` cuts first: a panic of either ends both
      cases hc : chunks64 sz sizeLimit fuel rest with
      | none =>
        cases f s chunk (decide (rest.card = 0)) <;> simp [walkChunks64_eq_bind f fuel _ rest, hc]
      | some cs => simp [walkChunks64_eq_bind f fuel _ rest, hc, List.foldlM_cons]

end Walk

/-! ### Keys -/

/-- The suffix `WalkChunkWithKeys64` keys a chunk by: `2^64 - 1` for the last one, its maximum for the others. -/
def chunkSuffix (c : Bitmap64 × Bool) : ℕ := if c.2 then 2 ^ 64 - 1 else c.1.toList.getLastD 0

/-- A chunk is keyed at or above each of its elements. -/
theorem le_chunkSuffix {c : Bitmap64 × Bool} {x : ℕ} (hx : x ∈ c.1.toList) : x ≤ chunkSuffix c := by
  unfold chunkSuffix
  split
  · have := c.1.bounded x hx
    omega
  · exact Bitmap64.le_maximum (Bitmap64.maximum_eq_getLastD (List.ne_nil_of_mem hx)) hx

/-- A chunk that is not the last is keyed by one of its elements, its maximum. -/
theorem chunkSuffix_mem {c : Bitmap64 × Bool} (hc : c.2 = false) (hne : c.1.toList ≠ []) :
    chunkSuffix c ∈ c.1.toList := by
  rw [chunkSuffix, if_neg (by simp [hc])]
  exact Bitmap64.maximum_mem (Bitmap64.maximum_eq_getLastD hne)

/-- The suffix `WalkChunkWithKeys64` computes for a nonempty chunk is `chunkSuffix`: its maximum exists. -/
theorem some_chunkSuffix {c : Bitmap64 × Bool} (hne : c.1.toList ≠ []) :
    (if c.2 = true then some (2 ^ 64 - 1) else c.1.maximum) = some (chunkSuffix c) := by
  unfold chunkSuffix
  split
  · rfl
  · exact Bitmap64.maximum_eq_getLastD hne

/-- A callback that writes down each key and chunk it is handed. -/
def record (acc : List (List UInt8 × Bitmap64)) (key : List UInt8) (chunk : Bitmap64) :
    Option (List (List UInt8 × Bitmap64)) :=
  some (acc ++ [(key, chunk)])

section Keys

variable {sz sizeLimit}

/-- Nonempty chunks all have a maximum, so keying them never panics. -/
theorem foldlM_keyed_record (k : List UInt8) :
    ∀ (cs : List (Bitmap64 × Bool)) (acc : List (List UInt8 × Bitmap64)), (∀ c ∈ cs, c.1.toList ≠ []) →
      cs.foldlM (fun s (c : Bitmap64 × Bool) =>
          (if c.2 then some (2 ^ 64 - 1) else c.1.maximum).bind fun suffix => record s (chunkKey k suffix) c.1) acc =
        some (acc ++ cs.map fun c => (chunkKey k (chunkSuffix c), c.1))
  | [], acc, _ => by simp
  | c :: cs, acc, hne => by
    rw [List.foldlM_cons, some_chunkSuffix (hne c List.mem_cons_self), Option.bind_some]
    change some (acc ++ [(chunkKey k (chunkSuffix c), c.1)]) >>= _ = _
    rw [Option.bind_eq_bind, Option.bind_some, foldlM_keyed_record k cs _ fun c' hc' => hne c' (List.mem_cons_of_mem c hc')]
    simp

/-- Away from the edges of `uint64`, `WalkChunkWithKeys64` ends, and the chunks it hands out partition the
bitmap, each keyed by `k` and its maximum, the last by `2^64 - 1`. -/
theorem walkChunkWithKeys64_partitions (hfit : SingletonsFit sz sizeLimit) {bm : Bitmap64} (hbm : bm.Cuttable)
    (k : List UInt8) {fuel : ℕ} (hfuel : bm.card < fuel) :
    ∃ cs, Partitions sz sizeLimit bm cs ∧
      walkChunkWithKeys64 sz sizeLimit k record fuel [] bm = some (cs.map fun c => (chunkKey k (chunkSuffix c), c.1)) := by
  obtain ⟨cs, hcs, hpart⟩ := chunks64_partitions hfit fuel bm hbm hfuel
  refine ⟨cs, hpart, ?_⟩
  rw [walkChunkWithKeys64, walkChunks64_eq_bind, hcs, Option.bind_some, foldlM_keyed_record k cs [] hpart.ne_nil,
    List.nil_append]

end Keys

/-- The size that counts elements, with which a one-element bitmap fits any positive limit. -/
def countSize : SerializedSize := ⟨List.length, List.length⟩

/-- The bitmap `{1, 2, 3}`. -/
def threeBlocks : Bitmap64 := ⟨[1, 2, 3], by decide, by decide⟩

theorem threeBlocks_cuttable : threeBlocks.Cuttable := by
  unfold Bitmap64.Cuttable threeBlocks
  decide

theorem walkChunkWithKeys64_partitions_threeBlocks :
    SingletonsFit countSize 2 ∧ threeBlocks.Cuttable ∧
      ∃ cs, Partitions countSize 2 threeBlocks cs ∧
        walkChunkWithKeys64 countSize 2 [] record 4 [] threeBlocks =
          some (cs.map fun c => (chunkKey [] (chunkSuffix c), c.1)) :=
  ⟨fun _ => ⟨Nat.le_succ 1, Nat.le_succ 1⟩, threeBlocks_cuttable,
    walkChunkWithKeys64_partitions (fun _ => ⟨Nat.le_succ 1, Nat.le_succ 1⟩) threeBlocks_cuttable [] (by decide)⟩

/-- At the edges of `uint64` the walk breaks.  A bitmap holding `2^64 - 1` that fits is cut by
`AddRange(min, Maximum()+1)`, whose end wraps to `0`, so it comes out as one empty chunk keyed as the last.  A
bitmap spanning `2^63` or more that does not fit has `int(minMax)` negative, so `sort.Search` returns `0`, the
chunk is empty, nothing is removed, and the chunk's `Maximum()` panics. -/
theorem walkChunkWithKeys64_breaks_at_uint64_edges :
    (∀ (sz : SerializedSize) (sizeLimit : ℕ) (k : List UInt8) (bm : Bitmap64) (fuel : ℕ),
        bm.maximum = some (2 ^ 64 - 1) → sz.held bm.toList ≤ sizeLimit → 2 ≤ fuel →
        walkChunkWithKeys64 sz sizeLimit k record fuel [] bm = some [(chunkKey k (2 ^ 64 - 1), Bitmap64.empty)]) ∧
    (∀ {σ : Type} (sz : SerializedSize) (sizeLimit : ℕ) (k : List UInt8)
        (f : σ → List UInt8 → Bitmap64 → Option σ) (s : σ) (bm : Bitmap64) (a b fuel : ℕ),
        bm.minimum = some a → bm.maximum = some b → 2 ^ 63 ≤ b - a → sizeLimit < sz.held bm.toList →
        walkChunkWithKeys64 sz sizeLimit k f fuel s bm = none) := by
  constructor
  · intro sz sizeLimit k bm fuel hb hfits hfuel
    obtain ⟨a, ha⟩ := Bitmap64.minimum_isSome (List.ne_nil_of_mem (Bitmap64.maximum_mem hb))
    obtain ⟨n, rfl⟩ : ∃ n, fuel = n + 2 := ⟨fuel - 2, by omega⟩
    -- the end of the range wraps to `0`, so the chunk is empty
    have hwrap : bm.range a ((2 ^ 64 - 1 + 1) % 2 ^ 64) = Bitmap64.empty :=
      Bitmap64.eq_empty_of_toList (Bitmap64.toList_range_of_le (by norm_num))
    have hcut := cutLeft64_of_fits ha hb hfits
    rw [hwrap] at hcut
    rw [walkChunkWithKeys64, walkChunks64_of_cut _ hcut]
    simp [walkChunks64, cutLeft64_eq_none_iff.2 Bitmap64.toList_empty, Bitmap64.card, record]
  · intro σ sz sizeLimit k f s bm a b fuel ha hb hspan hbig
    cases fuel with
    | zero => rfl
    | succ fuel =>
      have hwidth := cutWidth_of_wide sz sizeLimit bm hspan (bm.bounded b (Bitmap64.maximum_mem hb))
      have hcut := cutLeft64_of_too_big ha hb hbig
      rw [hwidth, Nat.add_zero] at hcut
      -- the chunk is empty and the bitmap is left whole, so the chunk is not the last and has no maximum
      have hchunk : (bm.range a a).maximum = none := by
        rw [Bitmap64.maximum, Bitmap64.toList_range_of_le (Nat.le_refl a)]
        rfl
      have hrest : (bm.removeRange a a).card ≠ 0 := by
        rw [Ne, Bitmap64.card_eq_zero_iff, Bitmap64.toList_removeRange_of_le (Nat.le_refl a)]
        exact List.ne_nil_of_mem (Bitmap64.minimum_mem ha)
      rw [walkChunkWithKeys64, walkChunks64_of_cut _ hcut]
      simp [hrest, hchunk]

/-- The bitmap `{2^64 - 1}`. -/
def edgeBitmap : Bitmap64 := ⟨[2 ^ 64 - 1], List.pairwise_singleton _ _, by simp⟩

/-- The bitmap `{0, 2^63}`. -/
def wideBitmap : Bitmap64 := ⟨[0, 2 ^ 63], by simp, by simp⟩

theorem walkChunkWithKeys64_breaks_at_edge_bitmaps :
    SingletonsFit countSize 1 ∧
      walkChunkWithKeys64 countSize 1 [] record 2 [] edgeBitmap = some [(chunkKey [] (2 ^ 64 - 1), Bitmap64.empty)] ∧
      walkChunkWithKeys64 countSize 1 [] record 5 [] wideBitmap = none :=
  ⟨fun _ => ⟨Nat.le_refl 1, Nat.le_refl 1⟩,
    walkChunkWithKeys64_breaks_at_uint64_edges.1 countSize 1 [] edgeBitmap 2 rfl (Nat.le_refl 1) (Nat.le_refl 2),
    walkChunkWithKeys64_breaks_at_uint64_edges.2 countSize 1 [] record [] wideBitmap 0 (2 ^ 63) 5 rfl rfl
      (by norm_num) (by decide)⟩

end AmazeChain.Bitmapdb
