import AmazeChain.Lib.SortedList
import AmazeChain.Lib.BigEndian

/-!
# Dup-sorted tables

A table opened with `DupSort`, as `AccountChangeSet` and `StorageChangeSet` are (`internal/kv/mdbx`): a key holds
several values, and the pairs sort by key, then by value, bytewise.  The model keeps the pairs as a list
increasing in that order, which is the order a cursor walks them in.  `put` adds a pair, and a pair already
there stays as it is; the state writer's `AppendDup` in sorted order is the same.  `seekBothRange` is
`CursorDupSort.SeekBothRange`: the first value at or above the given one under exactly the given key, `nil` when
there is none.  `walk` is `ethdb.Walk` without fixed bits: the walker from `Cursor.Seek(startkey)`, the first
pair whose key is at or above `startkey`, on each pair until it stops or fails.
-/

namespace AmazeChain.Kv

open BigEndian

/-- The order of the pairs of a dup-sorted table: by key, then by value. -/
abbrev EntryLt : List UInt8 × List UInt8 → List UInt8 × List UInt8 → Prop := Prod.Lex (· < ·) (· < ·)

/-- A dup-sorted table: its pairs, in the order of the table. -/
structure DupSort where
  entries : List (List UInt8 × List UInt8)
  sorted : entries.Pairwise EntryLt

namespace DupSort

/-- The empty table. -/
def empty : DupSort := ⟨[], List.Pairwise.nil⟩

/-- `Put`: the pair joins the table in its place. -/
def put (t : DupSort) (k v : List UInt8) : DupSort :=
  ⟨SortedList.insert EntryLt (k, v) t.entries, SortedList.pairwise_insert _ t.sorted⟩

/-- `CursorDupSort.SeekBothRange`: the first value of `key` at or above `value`; `none` is `nil`. -/
def seekBothRange (t : DupSort) (key value : List UInt8) : Option (List UInt8) :=
  match SortedList.lowerBound EntryLt (key, value) t.entries with
  | some (k, v) => if k = key then some v else none
  | none => none

/-- The pairs from `Cursor.Seek(key)` on: those whose key is at or above `key`. -/
def seek (t : DupSort) (key : List UInt8) : List (List UInt8 × List UInt8) :=
  t.entries.dropWhile fun e => decide (e.1 < key)

/-- The loop of `ethdb.Walk` over the pairs from the seek: the walker's state, until it stops or fails. -/
def walkFrom {σ : Type} (walker : σ → List UInt8 → List UInt8 → Except String (Bool × σ)) :
    List (List UInt8 × List UInt8) → σ → Except String σ
  | [], s => .ok s
  | (k, v) :: rest, s =>
    match walker s k v with
    | .error e => .error e
    | .ok (goOn, s) => if goOn then walkFrom walker rest s else .ok s

/-- `ethdb.Walk` with no fixed bits. -/
def walk {σ : Type} (t : DupSort) (startkey : List UInt8)
    (walker : σ → List UInt8 → List UInt8 → Except String (Bool × σ)) (s : σ) : Except String σ :=
  walkFrom walker (t.seek startkey) s

@[simp] theorem entries_empty : empty.entries = [] := rfl

theorem mem_put {t : DupSort} {k v : List UInt8} {e : List UInt8 × List UInt8} :
    e ∈ (t.put k v).entries ↔ e = (k, v) ∨ e ∈ t.entries :=
  SortedList.mem_insert

theorem entryLt_iff {e e' : List UInt8 × List UInt8} : EntryLt e e' ↔ e.1 < e'.1 ∨ e.1 = e'.1 ∧ e.2 < e'.2 :=
  Prod.lex_def

/-- `SeekBothRange` finds a value exactly when one of the key's values is at or above the probe, and then the
least such. -/
theorem seekBothRange_eq_some_iff {t : DupSort} {key value v : List UInt8} :
    t.seekBothRange key value = some v ↔
      (key, v) ∈ t.entries ∧ ¬ v < value ∧ ∀ w, (key, w) ∈ t.entries → w < v → w < value := by
  unfold seekBothRange
  constructor
  · intro h
    split at h
    · rename_i k v' hlow
      split at h
      · rename_i hk
        cases h
        subst hk
        obtain ⟨hmem, hge, hleast⟩ := SortedList.lowerBound_spec t.sorted hlow
        refine ⟨hmem, fun hlt => hge (entryLt_iff.2 (.inr ⟨rfl, hlt⟩)), fun w hw hwv => ?_⟩
        have hwlt := hleast (k, w) hw (entryLt_iff.2 (.inr ⟨rfl, hwv⟩))
        rcases entryLt_iff.1 hwlt with h | ⟨-, h⟩
        · exact absurd h (List.lt_irrefl _)
        · exact h
      · cases h
    · cases h
  · rintro ⟨hmem, hge, hleast⟩
    -- the pair itself is the least one at or above the probe
    have hlow : SortedList.lowerBound EntryLt (key, value) t.entries = some (key, v) := by
      refine (SortedList.lowerBound_eq_some_iff t.sorted).2 ⟨hmem, fun h => ?_, fun c hc hcv => ?_⟩
      · rcases entryLt_iff.1 h with h | ⟨-, h⟩
        · exact List.lt_irrefl _ h
        · exact hge h
      · rcases entryLt_iff.1 hcv with h | ⟨hk, h⟩
        · exact entryLt_iff.2 (.inl h)
        · obtain ⟨k, w⟩ := c
          dsimp only at hk h
          subst hk
          exact entryLt_iff.2 (.inr ⟨rfl, hleast w hc h⟩)
    rw [hlow]
    simp

/-- `SeekBothRange` finds nothing when every value of the key is below the probe. -/
theorem seekBothRange_eq_none {t : DupSort} {key value : List UInt8}
    (h : ∀ w, (key, w) ∈ t.entries → w < value) : t.seekBothRange key value = none := by
  cases hseek : t.seekBothRange key value with
  | none => rfl
  | some v =>
    obtain ⟨hmem, hge, -⟩ := seekBothRange_eq_some_iff.1 hseek
    exact absurd (h v hmem) hge

/-- `SeekBothRange` finds a value as soon as one of the key's values is at or above the probe. -/
theorem seekBothRange_isSome {t : DupSort} {key value w : List UInt8} (hw : (key, w) ∈ t.entries)
    (hge : ¬ w < value) : ∃ v, t.seekBothRange key value = some v := by
  cases hlow : SortedList.lowerBound EntryLt (key, value) t.entries with
  | none => exact absurd ((entryLt_iff.1 (SortedList.lowerBound_eq_none_iff.1 hlow _ hw)).elim
      (fun h => absurd h (List.lt_irrefl _)) fun h => h.2) hge
  | some e =>
    obtain ⟨k, v⟩ := e
    obtain ⟨-, hkv, hleast⟩ := SortedList.lowerBound_spec t.sorted hlow
    -- the pair found is under `key`: not below the probe, and not above the pair `(key, w)`
    have hk : k = key := by
      have hnot : ¬ EntryLt (key, w) (k, v) := fun h => by
        rcases entryLt_iff.1 (hleast _ hw h) with h | ⟨-, h⟩
        · exact List.lt_irrefl _ h
        · exact hge h
      rcases Std.lt_trichotomy k key with h | h | h
      · exact absurd (entryLt_iff.2 (.inl h)) hkv
      · exact h
      · exact absurd (entryLt_iff.2 (.inl h)) hnot
    refine ⟨v, ?_⟩
    unfold seekBothRange
    rw [hlow]
    simp [hk]

/-- Under a key whose values each start with a part of length `L` that tells them apart, `SeekBothRange` at such
a part finds the value that starts with it. -/
theorem seekBothRange_of_prefix {t : DupSort} {key x y : List UInt8} (hxy : (key, x ++ y) ∈ t.entries)
    (hlen : ∀ w, (key, w) ∈ t.entries → x.length ≤ w.length)
    (huniq : ∀ w, (key, w) ∈ t.entries → w.take x.length = x → w = x ++ y) :
    t.seekBothRange key x = some (x ++ y) := by
  refine seekBothRange_eq_some_iff.2 ⟨hxy, List.not_lt.2 List.le_append_left, fun w hw hlt => ?_⟩
  have hsplit : w = w.take x.length ++ w.drop x.length := (List.take_append_drop _ _).symm
  have htake : (w.take x.length).length = x.length := by
    rw [List.length_take]
    exact Nat.min_eq_left (hlen w hw)
  have hparts := hlt
  rw [hsplit, append_lt_append_iff htake] at hparts
  rcases hparts with hfirst | ⟨heq, -⟩
  · -- the first part is already below `x`
    rw [hsplit]
    exact append_lt_of_lt htake hfirst
  · -- the first part is `x`: the value is the one that starts with it
    rw [huniq w hw heq] at hlt
    exact absurd hlt (List.lt_irrefl _)

theorem mem_foldl_put {β : Type} {key value : β → List UInt8} :
    ∀ {l : List β} {t : DupSort} {e : List UInt8 × List UInt8},
      e ∈ (l.foldl (fun t c => t.put (key c) (value c)) t).entries ↔ e ∈ t.entries ∨ ∃ c ∈ l, e = (key c, value c)
  | [], _, _ => by simp
  | c :: l, t, e => by
    rw [List.foldl_cons, mem_foldl_put, mem_put]
    simp only [List.mem_cons, exists_eq_or_imp]
    tauto

theorem nodup_entries (t : DupSort) : t.entries.Nodup := by
  refine t.sorted.imp ?_
  intro a b h heq
  subst heq
  exact irrefl a h

/-- The pairs from a seek are those whose key is at or above the key sought. -/
theorem seek_eq_filter (t : DupSort) (key : List UInt8) :
    t.seek key = t.entries.filter fun e => !decide (e.1 < key) := by
  -- a pair whose key is at or above `key` is followed by such pairs only
  have hup : ∀ e ∈ t.entries, ∀ e' ∈ t.entries, EntryLt e e' →
      (!decide (e.1 < key)) = true → (!decide (e'.1 < key)) = true := by
    intro e _ e' _ hlt he
    simp only [Bool.not_eq_true', decide_eq_false_iff_not] at he ⊢
    intro he'
    rcases entryLt_iff.1 hlt with h | ⟨h, -⟩
    · exact he (List.lt_trans h he')
    · exact he (h ▸ he')
  have h := SortedList.dropWhile_not_eq_filter t.sorted hup
  simp only [Bool.not_not] at h
  exact h

/-- A walker that stops at the first pair of a kind and otherwise takes a step visits the pairs before it. -/
theorem walkFrom_eq_foldlM {σ : Type} {walker : σ → List UInt8 → List UInt8 → Except String (Bool × σ)}
    {stop : List UInt8 × List UInt8 → Bool} {step : σ → List UInt8 × List UInt8 → Except String σ} :
    ∀ {l : List (List UInt8 × List UInt8)},
      (∀ e ∈ l, ∀ s, walker s e.1 e.2 = if stop e then .ok (false, s) else (step s e).map fun s => (true, s)) →
      ∀ s, walkFrom walker l s = (l.takeWhile fun e => !stop e).foldlM step s
  | [], _, _ => rfl
  | (k, v) :: rest, hw, s => by
    rw [walkFrom, hw (k, v) List.mem_cons_self]
    cases hstop : stop (k, v) with
    | true =>
      rw [List.takeWhile_cons_of_neg (by simp [hstop])]
      rfl
    | false =>
      rw [List.takeWhile_cons_of_pos (by simp [hstop]), List.foldlM_cons]
      simp only [Bool.false_eq_true, if_false]
      cases hstep : step s (k, v) with
      | error e => rfl
      | ok s' =>
        simp only [Except.map, bind, Except.bind, if_true]
        exact walkFrom_eq_foldlM (fun e he => hw e (List.mem_cons_of_mem _ he)) s'

end DupSort

end AmazeChain.Kv
