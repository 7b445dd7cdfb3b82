import Mathlib.Data.List.Basic
import Mathlib.Tactic.SplitIfs

/-!
# The protobuf wire format

A message on the wire is its fields one after another, each a key, `8 * number + wire type`, and a value:
a varint (wire type 0), or a length-delimited byte string (wire type 2) holding a number, a string, bytes
or a submessage.  A varint is seven bits a byte, least significant first, with the high bit set on every
byte but the last (`appendVarint`).  The message itself carries no length and no end mark.

The generated coders of protobuf-go write the fields of a message in increasing field number order, and
proto3 leaves a field out when it holds its zero value: a zero scalar, empty bytes, a nil submessage
pointer.  A message is therefore described by its slots, each a field number and the value it puts on the
wire if any (`present`, `marshal`).

Reading the format back (`consumeVarint`, `consumeField`) undoes the writer with any bytes after it, so
the bytes of a list of fields determine the list (`encodeFields_injective`), and the fields of a message
determine its slots (`present_injective`).  Two messages written back to back parse as one merged message,
so nothing splits a concatenation in general; it does split when every message's field numbers increase
and each has one field number in common (`flatten_injective_of_marked`): a boundary is then exactly where
the numbers stop increasing.
-/

namespace Protowire

/-! ### Varints -/

/-- `protowire.AppendVarint`. -/
def appendVarint (v : ℕ) : List UInt8 :=
  if v < 128 then [UInt8.ofNat v]
  else UInt8.ofNat (v % 128 + 128) :: appendVarint (v / 128)
termination_by v
decreasing_by omega

/-- The varint at the front of the bytes, and the bytes after it. -/
def consumeVarint : List UInt8 → Option (ℕ × List UInt8)
  | [] => none
  | b :: rest =>
    if b.toNat < 128 then some (b.toNat, rest)
    else (consumeVarint rest).map fun (v, rest) => (b.toNat - 128 + 128 * v, rest)

theorem appendVarint_ne_nil (v : ℕ) : appendVarint v ≠ [] := by
  rw [appendVarint]
  split <;> simp

theorem consumeVarint_appendVarint (v : ℕ) (rest : List UInt8) :
    consumeVarint (appendVarint v ++ rest) = some (v, rest) := by
  induction v using Nat.strongRecOn with
  | ind v ih =>
    rw [appendVarint]
    split
    · next hv =>
      have hbyte : (UInt8.ofNat v).toNat = v := by simp; omega
      simp [consumeVarint, hbyte, hv]
    · next hv =>
      -- a continuation byte carries the low seven bits, the rest is the varint of `v / 128`
      have hbyte : (UInt8.ofNat (v % 128 + 128)).toNat = v % 128 + 128 := by
        simp; omega
      have hrest := ih (v / 128) (by omega)
      simp only [List.cons_append, consumeVarint, hbyte, hrest, Option.map_some]
      rw [if_neg (by omega)]
      congr 2
      omega

/-! ### Fields -/

/-- What a field holds on the wire: a varint, or length-delimited bytes. -/
inductive Value where
  | varint (v : ℕ)
  | bytes (b : List UInt8)
  deriving DecidableEq, Repr

/-- `protowire.VarintType` and `protowire.BytesType`. -/
def Value.wireType : Value → ℕ
  | .varint _ => 0
  | .bytes _ => 2

/-- `protowire.AppendVarint` of a varint; `protowire.AppendBytes`, the length and then the bytes. -/
def Value.encode : Value → List UInt8
  | .varint v => appendVarint v
  | .bytes b => appendVarint b.length ++ b

structure Field where
  num : ℕ
  value : Value
  deriving DecidableEq, Repr

/-- `protowire.AppendTag` and then the value. -/
def Field.encode (f : Field) : List UInt8 :=
  appendVarint (f.num * 8 + f.value.wireType) ++ f.value.encode

/-- The field at the front of the bytes, and the bytes after it. -/
def consumeField (bs : List UInt8) : Option (Field × List UInt8) := do
  let (key, rest) ← consumeVarint bs
  match key % 8 with
  | 0 =>
    let (v, rest) ← consumeVarint rest
    pure (⟨key / 8, .varint v⟩, rest)
  | 2 =>
    let (n, rest) ← consumeVarint rest
    if n ≤ rest.length then pure (⟨key / 8, .bytes (rest.take n)⟩, rest.drop n) else none
  | _ => none

/-- The fields one after another, as `proto.Marshal` writes them. -/
def encodeFields (fs : List Field) : List UInt8 := fs.flatMap Field.encode

theorem Field.encode_ne_nil (f : Field) : f.encode ≠ [] := by
  simp [Field.encode, appendVarint_ne_nil]

theorem consumeField_encode (f : Field) (rest : List UInt8) :
    consumeField (f.encode ++ rest) = some (f, rest) := by
  obtain ⟨num, value⟩ := f
  cases value with
  | varint v =>
    simp [Field.encode, Value.encode, Value.wireType, consumeField, consumeVarint_appendVarint]
  | bytes b =>
    have hkey : (num * 8 + 2) % 8 = 2 := by omega
    have hnum : (num * 8 + 2) / 8 = num := by omega
    simp [Field.encode, Value.encode, Value.wireType, consumeField, consumeVarint_appendVarint, hkey,
      hnum]

@[simp] theorem encodeFields_nil : encodeFields [] = [] := rfl

@[simp] theorem encodeFields_cons (f : Field) (fs : List Field) :
    encodeFields (f :: fs) = f.encode ++ encodeFields fs := rfl

@[simp] theorem encodeFields_append (fs gs : List Field) :
    encodeFields (fs ++ gs) = encodeFields fs ++ encodeFields gs := List.flatMap_append

/-- The bytes of a list of fields determine the list: parse the first field and go on with the rest. -/
theorem encodeFields_injective : Function.Injective encodeFields := by
  intro fs
  induction fs with
  | nil =>
    intro gs h
    cases gs with
    | nil => rfl
    | cons g gs => exact absurd h.symm (by simp [g.encode_ne_nil])
  | cons f fs ih =>
    intro gs h
    cases gs with
    | nil => exact absurd h (by simp [f.encode_ne_nil])
    | cons g gs =>
      have hparse := congrArg consumeField h
      simp only [encodeFields_cons, consumeField_encode, Option.some.injEq, Prod.mk.injEq] at hparse
      rw [hparse.1, ih hparse.2]

theorem encodeFields_flatten (F : List (List Field)) :
    encodeFields F.flatten = (F.map encodeFields).flatten := by
  induction F with
  | nil => rfl
  | cons fs F ih => rw [List.flatten_cons, encodeFields_append, ih, List.map_cons, List.flatten_cons]

/-! ### Messages -/

/-- The fields a message writes, from its slots in field number order: the slots that hold a value. -/
def present (slots : List (ℕ × Option Value)) : List Field :=
  slots.filterMap fun slot => slot.2.map (Field.mk slot.1)

/-- `proto.Marshal` of a message, from its slots. -/
def marshal (slots : List (ℕ × Option Value)) : List UInt8 := encodeFields (present slots)

/-- A proto3 `uint64` or `uint32`: left out when it is zero. -/
def varintNoZero (v : ℕ) : Option Value := if v = 0 then none else some (.varint v)

/-- Proto3 `bytes`: left out when empty. -/
def bytesNoZero (b : List UInt8) : Option Value := if b = [] then none else some (.bytes b)

/-- A submessage field: left out when the pointer is nil, written when it is not, even empty. -/
def messagePtr {α : Type} (enc : α → List UInt8) (m : Option α) : Option Value :=
  m.map fun a => .bytes (enc a)

@[simp] theorem varintNoZero_inj {v v' : ℕ} : varintNoZero v = varintNoZero v' ↔ v = v' := by
  unfold varintNoZero
  split_ifs <;> simp_all [eq_comm]

@[simp] theorem bytesNoZero_inj {b b' : List UInt8} : bytesNoZero b = bytesNoZero b' ↔ b = b' := by
  unfold bytesNoZero
  split_ifs <;> simp_all

@[simp] theorem messagePtr_inj {α : Type} {enc : α → List UInt8} (henc : Function.Injective enc)
    {m m' : Option α} : messagePtr enc m = messagePtr enc m' ↔ m = m' := by
  cases m <;> cases m' <;> simp [messagePtr, henc.eq_iff]

@[simp] theorem present_nil : present [] = [] := rfl

@[simp] theorem present_cons_none (num : ℕ) (slots : List (ℕ × Option Value)) :
    present ((num, none) :: slots) = present slots := rfl

@[simp] theorem present_cons_some (num : ℕ) (value : Value) (slots : List (ℕ × Option Value)) :
    present ((num, some value) :: slots) = ⟨num, value⟩ :: present slots := rfl

theorem mem_present {f : Field} {slots : List (ℕ × Option Value)} :
    f ∈ present slots ↔ (f.num, some f.value) ∈ slots := by
  obtain ⟨n, w⟩ := f
  induction slots with
  | nil => simp
  | cons slot slots ih =>
    obtain ⟨num, v⟩ := slot
    cases v with
    | none => simp [ih]
    | some value => simp [ih]

/-- The field numbers a message writes are among those of its slots, in their order. -/
theorem nums_present_sublist (slots : List (ℕ × Option Value)) :
    List.Sublist ((present slots).map Field.num) (slots.map Prod.fst) := by
  induction slots with
  | nil => simp
  | cons slot slots ih =>
    obtain ⟨num, v⟩ := slot
    cases v with
    | none => simpa using ih.cons num
    | some value => simpa using ih.cons_cons num

/-- The fields of a message determine its slots, among messages with the same field numbers. -/
theorem present_injective : ∀ {slots slots' : List (ℕ × Option Value)},
    slots.map Prod.fst = slots'.map Prod.fst → (slots.map Prod.fst).Nodup →
      present slots = present slots' → slots = slots'
  | [], [], _, _, _ => rfl
  | [], _ :: _, hnums, _, _ => by simp at hnums
  | _ :: _, [], hnums, _, _ => by simp at hnums
  | (num, v) :: slots, (num', v') :: slots', hnums, hnodup, h => by
    simp only [List.map_cons, List.cons.injEq] at hnums
    obtain ⟨rfl, hnums⟩ := hnums
    rw [List.map_cons, List.nodup_cons] at hnodup
    -- a value in one slot and none in the other would put the number twice among the slots
    have hfresh (value : Value) (hmem : Field.mk num value ∈ present slots ∨ Field.mk num value ∈ present slots') :
        False := by
      rw [mem_present, mem_present] at hmem
      apply hnodup.1
      rcases hmem with hmem | hmem
      · exact List.mem_map.2 ⟨_, hmem, rfl⟩
      · rw [hnums]
        exact List.mem_map.2 ⟨_, hmem, rfl⟩
    cases v with
    | none =>
      cases v' with
      | none =>
        rw [present_cons_none, present_cons_none] at h
        rw [present_injective hnums hnodup.2 h]
      | some value' =>
        rw [present_cons_none, present_cons_some] at h
        exact (hfresh value' (.inl (by rw [h]; exact List.mem_cons_self))).elim
    | some value =>
      cases v' with
      | none =>
        rw [present_cons_some, present_cons_none] at h
        exact (hfresh value (.inr (by rw [← h]; exact List.mem_cons_self))).elim
      | some value' =>
        rw [present_cons_some, present_cons_some, List.cons.injEq, Field.mk.injEq] at h
        rw [h.1.2, present_injective hnums hnodup.2 h.2]

/-- The bytes of a message determine its slots, among messages with the same field numbers. -/
theorem marshal_inj {slots slots' : List (ℕ × Option Value)} (hnums : slots.map Prod.fst = slots'.map Prod.fst)
    (hnodup : (slots.map Prod.fst).Nodup) (h : marshal slots = marshal slots') : slots = slots' :=
  present_injective hnums hnodup (encodeFields_injective h)

/-! ### Messages written back to back -/

/-- The field numbers increase, and `p` is one of them. -/
def Marked (p : ℕ) (fs : List Field) : Prop :=
  (fs.map Field.num).Pairwise (· < ·) ∧ p ∈ fs.map Field.num

theorem marked_present {p : ℕ} {slots : List (ℕ × Option Value)}
    (hnums : (slots.map Prod.fst).Pairwise (· < ·)) {value : Value} (hp : (p, some value) ∈ slots) :
    Marked p (present slots) :=
  ⟨hnums.sublist (nums_present_sublist slots),
    List.mem_map.2 ⟨⟨p, value⟩, mem_present.2 hp, rfl⟩⟩

theorem Marked.ne_nil {p : ℕ} {fs : List Field} (h : Marked p fs) : fs ≠ [] := by
  rintro rfl
  simp [Marked] at h

/-- The first field of a marked list comes at or before the mark. -/
theorem Marked.head_le {p : ℕ} {f : Field} {fs : List Field} (h : Marked p (f :: fs)) : f.num ≤ p := by
  obtain ⟨hinc, hp⟩ := h
  rw [List.map_cons, List.pairwise_cons] at hinc
  rw [List.map_cons, List.mem_cons] at hp
  rcases hp with hp | hp
  · omega
  · exact Nat.le_of_lt (hinc.1 p hp)

/-- A marked list is no proper prefix of another: what follows it in an increasing list comes after the
mark, and a marked list starts at or before it. -/
theorem Marked.append_eq {p : ℕ} {fs gs rest : List Field} (hfs : Marked p fs) (hgs : Marked p (fs ++ rest))
    {G : List (List Field)} (hG : ∀ g ∈ G, Marked p g) (hrest : G.flatten = rest ++ gs) : rest = [] := by
  cases rest with
  | nil => rfl
  | cons r rest =>
    exfalso
    -- `r` is the first field of the first list of `G`
    obtain ⟨g, G', rfl⟩ : ∃ g G', G = g :: G' := by
      cases G with
      | nil => simp at hrest
      | cons g G' => exact ⟨g, G', rfl⟩
    have hg := hG g List.mem_cons_self
    obtain ⟨g₀, g', rfl⟩ : ∃ g₀ g', g = g₀ :: g' := by
      cases g with
      | nil => exact absurd rfl hg.ne_nil
      | cons g₀ g' => exact ⟨g₀, g', rfl⟩
    have hr : g₀ = r := by simpa using congrArg List.head? hrest
    have hle : r.num ≤ p := by
      rw [← hr]
      exact hg.head_le
    -- in `fs ++ r :: rest` the mark of `fs` comes before `r`
    obtain ⟨hinc, -⟩ := hgs
    obtain ⟨f, hf, hfp⟩ := List.mem_map.1 hfs.2
    rw [List.map_append, List.pairwise_append] at hinc
    have hlt := hinc.2.2 _ (List.mem_map_of_mem hf) _ (List.mem_map_of_mem List.mem_cons_self)
    omega

/-- Messages whose field numbers increase through one common number split back into the messages. -/
theorem flatten_injective_of_marked {p : ℕ} :
    ∀ {F G : List (List Field)}, (∀ fs ∈ F, Marked p fs) → (∀ gs ∈ G, Marked p gs) →
      F.flatten = G.flatten → F = G
  | [], [], _, _, _ => rfl
  | [], g :: G, _, hG, h => absurd (List.flatten_eq_nil_iff.1 h.symm g List.mem_cons_self)
      (hG g List.mem_cons_self).ne_nil
  | f :: F, [], hF, _, h => absurd (List.flatten_eq_nil_iff.1 h f List.mem_cons_self)
      (hF f List.mem_cons_self).ne_nil
  | f :: F, g :: G, hF, hG, h => by
    have hf := hF f List.mem_cons_self
    have hg := hG g List.mem_cons_self
    have hF' : ∀ fs ∈ F, Marked p fs := fun fs hfs => hF fs (List.mem_cons_of_mem f hfs)
    have hG' : ∀ gs ∈ G, Marked p gs := fun gs hgs => hG gs (List.mem_cons_of_mem g hgs)
    rw [List.flatten_cons, List.flatten_cons] at h
    -- the shorter of the two first messages is a prefix of the other, and no marked list is a proper one
    have hfg : f = g := by
      rcases List.append_eq_append_iff.1 h with ⟨rest, rfl, hrest⟩ | ⟨rest, rfl, hrest⟩
      · rw [hf.append_eq hg hF' hrest, List.append_nil]
      · rw [hg.append_eq hf hG' hrest, List.append_nil]
    subst hfg
    rw [flatten_injective_of_marked hF' hG' (List.append_cancel_left h)]

end Protowire
