import AmazeChain.Bitmapdb.Chunks
import AmazeChain.Changeset.Changeset

/-!
# Reading and writing the history index

The chunks of one key sit in its index bucket under `k ++ putUint64 suffix`, and every reader and writer of
`dbutils.go` stops at the first key without the prefix `k`, so the model keeps the chunks of each key by suffix
(`ChunkTable`).  `Get64` joins the chunks from the first keyed at or above `from` up to the first keyed at or
above `to`; `SeekInBitmap64` is the least element at or above a number; `FindByHistory` seeks the first chunk
keyed at or above the timestamp and looks in that chunk alone.  `writeIndex` adds the block to what `Get64` reads
up to `MaxUint32` and writes the chunks of the result back; `TruncateRange64` deletes the chunks keyed from `to`
on and writes back what is below `to`.

On a table that holds the chunks of one walk, `FindByHistory`'s lookup is the least indexed block at or above the
timestamp, and `Get64` reads every block of its range (`chunkTable_of_walk_lookups`).  Writes only put:
`writeIndexKey` keeps every key it finds (`writeIndexKey_keeps_keys`), so a chunk keyed by an old maximum stays
when the new cuts fall elsewhere.
-/

namespace AmazeChain.Bitmapdb

namespace Bitmap64

/-- `Add(x)`. -/
def add (bm : Bitmap64) (x : UInt64) : Bitmap64 :=
  ⟨SortedList.insert (· < ·) x.toNat bm.toList, SortedList.pairwise_insert _ bm.sorted, fun y hy => by
    rcases SortedList.mem_insert.1 hy with rfl | hy
    · exact UInt64.toNat_lt _
    · exact bm.bounded y hy⟩

/-- `Or`: the elements of either bitmap. -/
def or (a b : Bitmap64) : Bitmap64 :=
  ⟨b.toList.foldr (SortedList.insert (· < ·)) a.toList, SortedList.pairwise_foldr_insert a.sorted _, fun y hy => by
    rcases SortedList.mem_foldr_insert.1 hy with hy | hy
    · exact b.bounded y hy
    · exact a.bounded y hy⟩

/-- `FastOr` of a list of bitmaps, `roaring64.New()` for none. -/
def fastOr (bms : List Bitmap64) : Bitmap64 := bms.foldl or empty

/-- `Rank(x)`: how many elements are at most `x`. -/
def rank (bm : Bitmap64) (x : ℕ) : ℕ := (bm.toList.filter fun y => y ≤ x).length

/-- `Select(r)`: the element of rank `r`, counting from `0`. -/
def select (bm : Bitmap64) (r : ℕ) : Option ℕ := bm.toList[r]?

@[simp] theorem mem_add {bm : Bitmap64} {x : UInt64} {y : ℕ} : y ∈ (bm.add x).toList ↔ y = x.toNat ∨ y ∈ bm.toList :=
  SortedList.mem_insert

@[simp] theorem mem_or {a b : Bitmap64} {y : ℕ} : y ∈ (a.or b).toList ↔ y ∈ b.toList ∨ y ∈ a.toList :=
  SortedList.mem_foldr_insert

theorem mem_foldl_or {y : ℕ} : ∀ {bms : List Bitmap64} {acc : Bitmap64},
    y ∈ (bms.foldl or acc).toList ↔ y ∈ acc.toList ∨ ∃ bm ∈ bms, y ∈ bm.toList
  | [], _ => by simp
  | bm :: bms, acc => by
    rw [List.foldl_cons, mem_foldl_or, mem_or]
    simp only [List.mem_cons, exists_eq_or_imp, or_left_comm, or_assoc]

theorem mem_fastOr {bms : List Bitmap64} {y : ℕ} : y ∈ (fastOr bms).toList ↔ ∃ bm ∈ bms, y ∈ bm.toList := by
  simp [fastOr, mem_foldl_or]

end Bitmap64

/-- `SeekInBitmap64`: the value at or above `n`, or not `ok`. -/
def seekInBitmap64 (m : Bitmap64) (n : ℕ) : Option ℕ :=
  if m.toList = [] then none
  else if n = 0 then m.minimum
  else
    let searchRank := m.rank (n - 1)
    if m.card ≤ searchRank then none else m.select searchRank

/-- Below a positive `n` are the elements of rank at most `n - 1`. -/
theorem length_filter_lt_eq_rank (m : Bitmap64) {n : ℕ} (hn : n ≠ 0) :
    (m.toList.filter fun y => decide (y < n)).length = m.rank (n - 1) := by
  unfold Bitmap64.rank
  congr 1
  exact List.filter_congr fun y _ => by simp only [decide_eq_decide]; omega

/-- `SeekInBitmap64` is the least element at or above `n`: on an increasing list the elements below `n` are
the first `Rank(n - 1)` ones. -/
theorem seekInBitmap64_eq_lowerBound (m : Bitmap64) (n : ℕ) :
    seekInBitmap64 m n = SortedList.lowerBound (· < ·) n m.toList := by
  unfold seekInBitmap64
  dsimp only
  split_ifs with hnil h0 hrank
  · rw [hnil]
    rfl
  · -- nothing is below `0`, so the first element is found
    subst h0
    obtain ⟨a, l, hl⟩ := List.exists_cons_of_ne_nil hnil
    simp [Bitmap64.minimum, SortedList.lowerBound, hl]
  · rw [SortedList.lowerBound_eq_getElem? m.sorted, length_filter_lt_eq_rank m h0,
      List.getElem?_eq_none (by simpa [Bitmap64.card] using hrank)]
  · rw [SortedList.lowerBound_eq_getElem? m.sorted, length_filter_lt_eq_rank m h0]
    rfl

/-- The chunks a bucket holds for one key `k`, by suffix: the chunk stored under `k ++ putUint64 suffix`.  Keys of
one length with the prefix `k` are ordered as their suffixes are (`putUint64_lt_putUint64`). -/
structure ChunkTable where
  entries : List (ℕ × Bitmap64)
  sorted : entries.Pairwise fun a b => a.1 < b.1

/-- `Put` of a chunk under a suffix: a new entry in its place, or the one there replaced. -/
def putEntry (suffix : ℕ) (chunk : Bitmap64) : List (ℕ × Bitmap64) → List (ℕ × Bitmap64)
  | [] => [(suffix, chunk)]
  | e :: rest =>
    if suffix < e.1 then (suffix, chunk) :: e :: rest
    else if suffix = e.1 then (suffix, chunk) :: rest
    else e :: putEntry suffix chunk rest

theorem mem_putEntry {suffix : ℕ} {chunk : Bitmap64} {e : ℕ × Bitmap64} :
    ∀ {l : List (ℕ × Bitmap64)}, e ∈ putEntry suffix chunk l → e = (suffix, chunk) ∨ e ∈ l
  | [], h => .inl (List.mem_singleton.1 h)
  | e' :: rest, h => by
    unfold putEntry at h
    split_ifs at h
    · exact List.mem_cons.1 h |>.imp id fun h => h
    · rcases List.mem_cons.1 h with h | h
      · exact .inl h
      · exact .inr (List.mem_cons_of_mem _ h)
    · rcases List.mem_cons.1 h with h | h
      · exact .inr (h ▸ List.mem_cons_self)
      · exact (mem_putEntry h).imp id (List.mem_cons_of_mem _)

/-- Every suffix the table had stays: `Put` replaces, never deletes. -/
theorem mem_keys_putEntry {suffix s : ℕ} {chunk : Bitmap64} :
    ∀ {l : List (ℕ × Bitmap64)}, s ∈ l.map Prod.fst → s ∈ (putEntry suffix chunk l).map Prod.fst
  | [], h => absurd h List.not_mem_nil
  | e :: rest, h => by
    unfold putEntry
    split_ifs with hlt heq
    · exact List.mem_cons_of_mem _ h
    · rcases List.mem_cons.1 h with h | h
      · exact List.mem_cons.2 (.inl (h.trans heq.symm))
      · exact List.mem_cons_of_mem _ h
    · rcases List.mem_cons.1 h with h | h
      · exact List.mem_cons.2 (.inl h)
      · exact List.mem_cons_of_mem _ (mem_keys_putEntry h)

theorem pairwise_putEntry (suffix : ℕ) (chunk : Bitmap64) :
    ∀ {l : List (ℕ × Bitmap64)}, l.Pairwise (fun a b => a.1 < b.1) →
      (putEntry suffix chunk l).Pairwise fun a b => a.1 < b.1
  | [], _ => List.pairwise_singleton _ _
  | e :: rest, h => by
    rw [List.pairwise_cons] at h
    unfold putEntry
    split_ifs with hlt heq
    · exact List.Pairwise.cons (fun b hb => by
        rcases List.mem_cons.1 hb with rfl | hb
        · exact hlt
        · exact Nat.lt_trans hlt (h.1 b hb)) (List.Pairwise.cons h.1 h.2)
    · exact List.Pairwise.cons (fun b hb => heq ▸ h.1 b hb) h.2
    · -- the new suffix is above `e`, and so is everything the rest becomes
      refine List.Pairwise.cons (fun b hb => ?_) (pairwise_putEntry suffix chunk h.2)
      rcases mem_putEntry hb with rfl | hb
      · omega
      · exact h.1 b hb

/-- A suffix above every one in the table goes at its end. -/
theorem putEntry_of_lt {suffix : ℕ} {chunk : Bitmap64} :
    ∀ {l : List (ℕ × Bitmap64)}, (∀ e ∈ l, e.1 < suffix) → putEntry suffix chunk l = l ++ [(suffix, chunk)]
  | [], _ => rfl
  | e :: rest, h => by
    have he := h e List.mem_cons_self
    rw [putEntry, if_neg (by omega), if_neg (by omega), putEntry_of_lt fun e' he' => h e' (List.mem_cons_of_mem _ he'),
      List.cons_append]

namespace ChunkTable

def empty : ChunkTable := ⟨[], List.Pairwise.nil⟩

def put (t : ChunkTable) (suffix : ℕ) (chunk : Bitmap64) : ChunkTable :=
  ⟨putEntry suffix chunk t.entries, pairwise_putEntry suffix chunk t.sorted⟩

/-- `Seek(k ++ putUint64 n)` and the `Next`s after it: the chunks from the first keyed at or above `n`. -/
def seek (t : ChunkTable) (n : ℕ) : List (ℕ × Bitmap64) := t.entries.dropWhile fun e => e.1 < n

/-- The `Delete`s of `TruncateRange64`'s walk from `k ++ putUint64 n`: every chunk keyed at or above `n` goes. -/
def deleteFrom (t : ChunkTable) (n : ℕ) : ChunkTable :=
  ⟨t.entries.filter fun e => e.1 < n, t.sorted.filter _⟩

end ChunkTable

/-- The chunks `Get64` reads of the ones it seeks: up to and including the first keyed at or above `to`. -/
def readUntil (toBlock : ℕ) : List (ℕ × Bitmap64) → List Bitmap64
  | [] => []
  | (suffix, chunk) :: rest => chunk :: if toBlock ≤ suffix then [] else readUntil toBlock rest

/-- `Get64(k, from, to)`: the chunks of `k` from the first keyed at or above `from` to the first keyed at or
above `to`, joined. -/
def get64 (t : ChunkTable) (fromBlock toBlock : ℕ) : Bitmap64 :=
  Bitmap64.fastOr (readUntil toBlock (t.seek fromBlock))

/-- The index lookup of `FindByHistory`: the first chunk of `k` keyed at or above the timestamp, and in it the
value at or above the timestamp.  No such chunk (a key without the prefix `k`, or none) is `ErrKeyNotFound`,
and so is a chunk without such a value. -/
def findByHistoryIndex (t : ChunkTable) (timestamp : ℕ) : Option ℕ :=
  (t.seek timestamp).head?.bind fun e => seekInBitmap64 e.2 timestamp

/-- `ChunkLimit`. -/
def chunkLimit : ℕ := 1950

/-- The callback of `writeIndex` and `TruncateRange64`: `Put` the chunk under its key, whose last eight bytes are
the suffix. -/
def putChunk (k : List UInt8) (t : ChunkTable) (chunkKey : List UInt8) (chunk : Bitmap64) : Option ChunkTable :=
  some (t.put (BigEndian.uint64 (chunkKey.drop k.length)).toNat chunk)

section Writes

variable (sz : SerializedSize) (fuel : ℕ)

/-- The body of `writeIndex` for one key: read its chunks up to `MaxUint32`, add the block, and write the chunks of
the result back. -/
def writeIndexKey (k : List UInt8) (t : ChunkTable) (blocknum : UInt64) : Option ChunkTable :=
  let index := (get64 t 0 (2 ^ 32 - 1)).add blocknum
  walkChunkWithKeys64 sz chunkLimit k (putChunk k) fuel t index

/-- `CompositeKeyWithoutIncarnation`: a storage key loses the incarnation after its address or hash. -/
def compositeKeyWithoutIncarnation (key : List UInt8) : List UInt8 :=
  if key.length = 32 * 2 + 2 then key.take 32 ++ key.drop (32 + 2)
  else if key.length = 20 + 32 + 2 then key.take 20 ++ key.drop (20 + 2)
  else key

/-- `writeIndex`: the block goes into the index of every changed key, one key after another. -/
def writeIndex (blocknum : UInt64) (changes : List Changeset.Change) (changeDb : List UInt8 → ChunkTable) :
    Option (List UInt8 → ChunkTable) :=
  changes.foldlM (fun db change =>
    let k := compositeKeyWithoutIncarnation change.key
    (writeIndexKey sz fuel k (db k) blocknum).map fun t => Function.update db k t) changeDb

/-- `TruncateRange64` for one key: what the chunks from `to` on hold below `to` is written back after they go. -/
def truncateRange64 (k : List UInt8) (t : ChunkTable) (toBlock : ℕ) : Option ChunkTable :=
  let bm := get64 t toBlock (2 ^ 64 - 1)
  let bm := match bm.maximum with
    | some maximum => if toBlock ≤ maximum then bm.removeRange toBlock ((maximum + 1) % 2 ^ 64) else bm
    | none => bm
  walkChunkWithKeys64 sz chunkLimit k (putChunk k) fuel (t.deleteFrom toBlock) bm

end Writes

theorem putChunk_chunkKey (k : List UInt8) (t : ChunkTable) {suffix : ℕ} (hs : suffix < 2 ^ 64) (chunk : Bitmap64) :
    putChunk k t (chunkKey k suffix) chunk = some (t.put suffix chunk) := by
  rw [putChunk, chunkKey, List.drop_left, BigEndian.uint64_putUint64, UInt64.toNat_ofNat', Nat.mod_eq_of_lt hs]

/-! ### A table of one walk's chunks -/

/-- A walk's chunks in a table, by the suffixes they are keyed by. -/
def chunkEntries (cs : List (Bitmap64 × Bool)) : List (ℕ × Bitmap64) := cs.map fun c => (chunkSuffix c, c.1)

@[simp] theorem chunkEntries_nil : chunkEntries [] = [] := rfl

@[simp] theorem chunkEntries_cons (c : Bitmap64 × Bool) (cs : List (Bitmap64 × Bool)) :
    chunkEntries (c :: cs) = (chunkSuffix c, c.1) :: chunkEntries cs := rfl

section OneWalk

variable {cs : List (Bitmap64 × Bool)}

/-- The elements of the chunks, put back together. -/
abbrev chunkElems (cs : List (Bitmap64 × Bool)) : List ℕ := (cs.map fun c => c.1.toList).flatten

/-- A chunk that is not the last lies below every element after it, and so does its key. -/
theorem chunkSuffix_lt_of_mem_after {c : Bitmap64 × Bool} (hc : c.2 = false) (hne : c.1.toList ≠ [])
    (hsorted : (chunkElems (c :: cs)).Pairwise (· < ·)) {y : ℕ} (hy : y ∈ chunkElems cs) : chunkSuffix c < y := by
  rw [chunkElems, List.map_cons, List.flatten_cons, List.pairwise_append] at hsorted
  exact hsorted.2.2 _ (chunkSuffix_mem hc hne) y hy

/-- The first chunk keyed at or above the timestamp holds the least element at or above it, if any does: the
chunks before are keyed below it, and so lie below it. -/
theorem lookup_chunkEntries {ts : ℕ} (hts : ts < 2 ^ 64) :
    ∀ {cs : List (Bitmap64 × Bool)}, LastMarked cs → (∀ c ∈ cs, c.1.toList ≠ []) →
      (((chunkEntries cs).dropWhile fun e => e.1 < ts).head?.bind fun e => SortedList.lowerBound (· < ·) ts e.2.toList) =
        SortedList.lowerBound (· < ·) ts (chunkElems cs)
  | [], _, _ => rfl
  | c :: cs, hmark, hne => by
    have hc := hne c List.mem_cons_self
    rw [chunkEntries_cons, List.dropWhile_cons, chunkElems, List.map_cons, List.flatten_cons,
      SortedList.lowerBound_append]
    by_cases hlt : chunkSuffix c < ts
    · -- the chunk is keyed below the timestamp, so it is not the last and lies below it
      have hlast : c.2 = false := by
        rcases Bool.eq_false_or_eq_true c.2 with h | h
        · rw [chunkSuffix, if_pos h] at hlt
          omega
        · exact h
      have hnone : SortedList.lowerBound (· < ·) ts c.1.toList = none :=
        SortedList.lowerBound_eq_none_iff.2 fun x hx => Nat.lt_of_le_of_lt (le_chunkSuffix hx) hlt
      rw [if_pos (decide_eq_true hlt), hnone, Option.none_or]
      exact lookup_chunkEntries hts hmark.tail fun c' hc' => hne c' (List.mem_cons_of_mem c hc')
    · rw [if_neg (by simpa using hlt), List.head?_cons, Option.bind_some]
      rcases Bool.eq_false_or_eq_true c.2 with h | h
      · -- the last chunk: nothing comes after it
        rw [hmark.head_iff.1 h]
        simp [SortedList.lowerBound]
      · -- the chunk's maximum is at or above the timestamp, so it is found there
        obtain ⟨b, hb⟩ := Option.isSome_iff_exists.1 (Option.isSome_iff_ne_none.2 fun hnone =>
          (Nat.not_lt.2 (Nat.le_of_not_lt hlt)) (SortedList.lowerBound_eq_none_iff.1 hnone _ (chunkSuffix_mem h hc)))
        rw [hb, Option.some_or]

/-- `Get64` without a lower end reads every element up to its upper end: the chunks before the one holding it
are keyed below it. -/
theorem mem_readUntil {toBlock : ℕ} :
    ∀ {cs : List (Bitmap64 × Bool)}, LastMarked cs → (∀ c ∈ cs, c.1.toList ≠ []) →
      (chunkElems cs).Pairwise (· < ·) → ∀ x ∈ chunkElems cs, x ≤ toBlock →
        ∃ bm ∈ readUntil toBlock (chunkEntries cs), x ∈ bm.toList
  | [], _, _, _, x, hx, _ => absurd hx List.not_mem_nil
  | c :: cs, hmark, hne, hsorted, x, hx, hle => by
    rw [chunkEntries_cons, readUntil]
    rw [chunkElems, List.map_cons, List.flatten_cons, List.mem_append] at hx
    rcases hx with hx | hx
    · exact ⟨c.1, List.mem_cons_self, hx⟩
    · -- the element is in a later chunk, so this one is not the last and is keyed below it
      have hlast : c.2 = false := hmark.head_of_ne_nil fun hnil => by
        rw [hnil] at hx
        exact List.not_mem_nil hx
      have hlt := chunkSuffix_lt_of_mem_after hlast (hne c List.mem_cons_self) hsorted hx
      rw [if_neg (by omega)]
      obtain ⟨bm, hbm, hxbm⟩ := mem_readUntil hmark.tail (fun c' hc' => hne c' (List.mem_cons_of_mem c hc'))
        (List.pairwise_append.1 (by simpa [chunkElems] using hsorted)).2.1 x hx hle
      exact ⟨bm, List.mem_cons_of_mem _ hbm, hxbm⟩

/-- `Get64(from, to)` reads every element of `[from, to]`: the chunks it seeks past are keyed below `from`. -/
theorem mem_get64_entries {fromBlock toBlock : ℕ} :
    ∀ {cs : List (Bitmap64 × Bool)}, LastMarked cs → (∀ c ∈ cs, c.1.toList ≠ []) →
      (chunkElems cs).Pairwise (· < ·) → ∀ x ∈ chunkElems cs, fromBlock ≤ x → x ≤ toBlock →
        ∃ bm ∈ readUntil toBlock ((chunkEntries cs).dropWhile fun e => e.1 < fromBlock), x ∈ bm.toList
  | [], _, _, _, x, hx, _, _ => absurd hx List.not_mem_nil
  | c :: cs, hmark, hne, hsorted, x, hx, hfrom, hto => by
    rw [chunkEntries_cons, List.dropWhile_cons]
    by_cases hlt : chunkSuffix c < fromBlock
    · -- the chunk is keyed below `from`, so the element is in a later one
      rw [if_pos (decide_eq_true hlt)]
      rw [chunkElems, List.map_cons, List.flatten_cons, List.mem_append] at hx
      rcases hx with hx | hx
      · exact absurd (Nat.lt_of_le_of_lt (le_chunkSuffix hx) hlt) (Nat.not_lt.2 hfrom)
      · exact mem_get64_entries hmark.tail (fun c' hc' => hne c' (List.mem_cons_of_mem c hc'))
          (List.pairwise_append.1 (by simpa [chunkElems] using hsorted)).2.1 x hx hfrom hto
    · rw [if_neg (by simpa using hlt), ← chunkEntries_cons]
      exact mem_readUntil hmark hne hsorted x hx hto

/-- Away from `2^64 - 1`, the keys of a walk's chunks increase. -/
theorem pairwise_chunkEntries :
    ∀ {cs : List (Bitmap64 × Bool)}, LastMarked cs → (∀ c ∈ cs, c.1.toList ≠ []) →
      (chunkElems cs).Pairwise (· < ·) → (∀ x ∈ chunkElems cs, x < 2 ^ 64 - 1) →
        (chunkEntries cs).Pairwise fun a b => a.1 < b.1
  | [], _, _, _, _ => List.Pairwise.nil
  | c :: cs, hmark, hne, hsorted, hedge => by
    rw [chunkEntries_cons, List.pairwise_cons]
    have htail := (List.pairwise_append.1 (by simpa [chunkElems] using hsorted)).2.1
    refine ⟨fun e he => ?_, pairwise_chunkEntries hmark.tail (fun c' hc' => hne c' (List.mem_cons_of_mem c hc'))
      htail fun x hx => hedge x (by simp only [chunkElems, List.map_cons, List.flatten_cons, List.mem_append]; exact .inr hx)⟩
    -- a later chunk holds an element above this chunk's key, and is keyed at or above it
    obtain ⟨c', hc', rfl⟩ := List.mem_map.1 he
    obtain ⟨y, hy⟩ := List.exists_mem_of_ne_nil _ (hne c' (List.mem_cons_of_mem c hc'))
    have hlast : c.2 = false := hmark.head_of_ne_nil (List.ne_nil_of_mem hc')
    have hyc : y ∈ chunkElems cs := List.mem_flatten.2 ⟨_, List.mem_map_of_mem hc', hy⟩
    exact Nat.lt_of_lt_of_le (chunkSuffix_lt_of_mem_after hlast (hne c List.mem_cons_self) hsorted hyc)
      (le_chunkSuffix hy)

/-- Putting chunks keyed by increasing suffixes below `2^64` after a table's entries appends them. -/
theorem foldlM_keyed_putChunk (k : List UInt8) :
    ∀ (cs : List (Bitmap64 × Bool)) (t : ChunkTable), (∀ c ∈ cs, c.1.toList ≠ []) →
      (t.entries ++ chunkEntries cs).Pairwise (fun a b => a.1 < b.1) → (∀ c ∈ cs, chunkSuffix c < 2 ^ 64) →
      ∃ t', cs.foldlM (fun t (c : Bitmap64 × Bool) =>
          (if c.2 then some (2 ^ 64 - 1) else c.1.maximum).bind fun suffix => putChunk k t (chunkKey k suffix) c.1)
          t = some t' ∧ t'.entries = t.entries ++ chunkEntries cs
  | [], t, _, _, _ => ⟨t, rfl, by simp⟩
  | c :: cs, t, hne, hsorted, hbound => by
    rw [chunkEntries_cons] at hsorted
    -- the new suffix is above every entry, so the put appends it
    have hput : (t.put (chunkSuffix c) c.1).entries = t.entries ++ [(chunkSuffix c, c.1)] :=
      putEntry_of_lt fun e he => (List.pairwise_append.1 hsorted).2.2 e he _ List.mem_cons_self
    rw [List.foldlM_cons, some_chunkSuffix (hne c List.mem_cons_self), Option.bind_some,
      putChunk_chunkKey k t (hbound c List.mem_cons_self) c.1, Option.bind_eq_bind, Option.bind_some]
    obtain ⟨t', hfold, hentries⟩ := foldlM_keyed_putChunk k cs (t.put (chunkSuffix c) c.1)
      (fun c' hc' => hne c' (List.mem_cons_of_mem c hc'))
      (by rw [hput, List.append_assoc]; exact hsorted) (fun c' hc' => hbound c' (List.mem_cons_of_mem c hc'))
    exact ⟨t', hfold, by rw [hentries, hput, List.append_assoc, chunkEntries_cons]; rfl⟩

end OneWalk

section Lookups

variable {sz : SerializedSize} {sizeLimit : ℕ}

/-- A walk into an empty table leaves in it exactly the walk's chunks, by their suffixes. -/
theorem walkChunkWithKeys64_putChunk (hfit : SingletonsFit sz sizeLimit) {bm : Bitmap64} (hbm : bm.Cuttable)
    (k : List UInt8) {fuel : ℕ} (hfuel : bm.card < fuel) :
    ∃ cs t, Partitions sz sizeLimit bm cs ∧
      walkChunkWithKeys64 sz sizeLimit k (putChunk k) fuel ChunkTable.empty bm = some t ∧ t.entries = chunkEntries cs := by
  obtain ⟨cs, hcs, hpart⟩ := chunks64_partitions hfit fuel bm hbm hfuel
  have hsorted : (chunkElems cs).Pairwise (· < ·) := by rw [chunkElems, hpart.flatten_eq]; exact bm.sorted
  have hedge : ∀ x ∈ chunkElems cs, x < 2 ^ 64 - 1 := fun x hx => by
    rw [chunkElems, hpart.flatten_eq] at hx
    exact (hbm x hx x hx).1
  -- the last chunk is keyed by `2^64 - 1`, the others by an element
  have hbound : ∀ c ∈ cs, chunkSuffix c < 2 ^ 64 := fun c hc => by
    rcases Bool.eq_false_or_eq_true c.2 with h | h
    · rw [chunkSuffix, if_pos h]
      omega
    · exact c.1.bounded _ (chunkSuffix_mem h (hpart.ne_nil c hc))
  obtain ⟨t, hfold, hentries⟩ := foldlM_keyed_putChunk k cs ChunkTable.empty hpart.ne_nil
    (pairwise_chunkEntries hpart.marked hpart.ne_nil hsorted hedge) hbound
  refine ⟨cs, t, hpart, ?_, hentries⟩
  rw [walkChunkWithKeys64, walkChunks64_eq_bind, hcs, Option.bind_some]
  exact hfold

/-- The chunks of one walk, as `WalkChunkWithKeys64` puts them in a key's empty table, are read back right:
`FindByHistory`'s lookup is the least indexed block at or above the timestamp (`SortedList.lowerBound_eq_some_iff`),
and `Get64` reads every indexed block of its range. -/
theorem chunkTable_of_walk_lookups (hfit : SingletonsFit sz sizeLimit) {bm : Bitmap64} (hbm : bm.Cuttable)
    (k : List UInt8) {fuel : ℕ} (hfuel : bm.card < fuel) :
    ∃ t, walkChunkWithKeys64 sz sizeLimit k (putChunk k) fuel ChunkTable.empty bm = some t ∧
      (∀ timestamp < 2 ^ 64, findByHistoryIndex t timestamp = SortedList.lowerBound (· < ·) timestamp bm.toList) ∧
      ∀ fromBlock toBlock, ∀ x ∈ bm.toList, fromBlock ≤ x → x ≤ toBlock → x ∈ (get64 t fromBlock toBlock).toList := by
  obtain ⟨cs, t, hpart, hwalk, hentries⟩ := walkChunkWithKeys64_putChunk hfit hbm k hfuel
  have helems : chunkElems cs = bm.toList := hpart.flatten_eq
  refine ⟨t, hwalk, fun ts hts => ?_, fun fromBlock toBlock x hx hfrom hto => ?_⟩
  · have hlookup := lookup_chunkEntries hts hpart.marked hpart.ne_nil
    rw [helems] at hlookup
    rw [← hlookup, findByHistoryIndex, ChunkTable.seek, hentries]
    simp only [seekInBitmap64_eq_lowerBound]
  · obtain ⟨chunk, hchunk, hxchunk⟩ := mem_get64_entries hpart.marked hpart.ne_nil (helems ▸ bm.sorted) x
      (helems ▸ hx) hfrom hto
    rw [get64, Bitmap64.mem_fastOr, ChunkTable.seek, hentries]
    exact ⟨chunk, hchunk, hxchunk⟩

theorem chunkTable_of_walk_lookups_threeBlocks :
    SingletonsFit countSize 2 ∧ threeBlocks.Cuttable ∧
      ∃ t, walkChunkWithKeys64 countSize 2 [] (putChunk []) 4 ChunkTable.empty threeBlocks = some t ∧
        (∀ timestamp < 2 ^ 64, findByHistoryIndex t timestamp = SortedList.lowerBound (· < ·) timestamp threeBlocks.toList) ∧
        ∀ fromBlock toBlock, ∀ x ∈ threeBlocks.toList, fromBlock ≤ x → x ≤ toBlock → x ∈ (get64 t fromBlock toBlock).toList :=
  ⟨fun _ => ⟨Nat.le_succ 1, Nat.le_succ 1⟩, threeBlocks_cuttable,
    chunkTable_of_walk_lookups (fun _ => ⟨Nat.le_succ 1, Nat.le_succ 1⟩) threeBlocks_cuttable [] (by decide)⟩

end Lookups

/-! ### Writes keep keys -/

/-- The puts of a walk's chunks keep every key of the table. -/
theorem foldlM_keyed_putChunk_keeps_keys (k : List UInt8) {s : ℕ} :
    ∀ (cs : List (Bitmap64 × Bool)) (t t' : ChunkTable),
      cs.foldlM (fun t (c : Bitmap64 × Bool) =>
          (if c.2 then some (2 ^ 64 - 1) else c.1.maximum).bind fun suffix => putChunk k t (chunkKey k suffix) c.1)
          t = some t' → s ∈ t.entries.map Prod.fst → s ∈ t'.entries.map Prod.fst
  | [], t, t', h, hs => by
    cases h
    exact hs
  | c :: cs, t, t', h, hs => by
    rw [List.foldlM_cons, Option.bind_eq_bind, Option.bind_eq_some_iff] at h
    obtain ⟨t₁, h₁, h₂⟩ := h
    -- each step is a `Put`
    obtain ⟨suffix, -, hput⟩ := Option.bind_eq_some_iff.1 h₁
    cases hput
    exact foldlM_keyed_putChunk_keeps_keys k cs _ t' h₂ (mem_keys_putEntry hs)

/-- `writeIndex` never deletes a chunk: every key of the table stays, so a chunk keyed by an old maximum stays
beside the new ones when the new cuts fall elsewhere. -/
theorem writeIndexKey_keeps_keys (sz : SerializedSize) (fuel : ℕ) (k : List UInt8) {t t' : ChunkTable}
    {blocknum : UInt64} (h : writeIndexKey sz fuel k t blocknum = some t') {s : ℕ} (hs : s ∈ t.entries.map Prod.fst) :
    s ∈ t'.entries.map Prod.fst := by
  rw [writeIndexKey, walkChunkWithKeys64, walkChunks64_eq_bind, Option.bind_eq_some_iff] at h
  obtain ⟨cs, -, hfold⟩ := h
  exact foldlM_keyed_putChunk_keeps_keys k cs t t' hfold hs

end AmazeChain.Bitmapdb
