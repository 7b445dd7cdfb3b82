import AmazeChain.Rlp.Typed
import AmazeChain.Rlp.Decode

/-!
# Decoding into typed values

`makeDecoder` (`decode.go`) builds the decoder of a Go type from its kind: `decodeByteSlice` for `[]byte`,
`decodeByteArray` for `[N]byte`, `decodeListSlice` over the element's decoder for any other slice,
`makeStructDecoder` over the decoders of the exported fields, and for a pointer the decoder of its element, into a
new value when the pointer is nil (`makeSimplePtrDecoder`).  `Ty` names these types and `Dyn.HasType` the values of
each, the values that `makeWriter` writes.

The decoder of a type reads every value of the type back from its encoding, whatever follows it
(`makeDecoder_encode`), and `DecodeBytes` into a pointer to the type returns the value that `EncodeToBytes` encoded
(`decodeBytesInto_encodeToBytes`), with one exception.  An array of one byte that holds zero is written as the byte
`0x00`.  `decodeByteArray` reads it with `Stream.Uint`, which refuses a zero byte with `ErrCanonInt` before it
rearms `Kind`, and the error is dropped: the array is set, but the stream stays on the byte
(`decodeByteArray_zero`), and the next field reads it again (`decodeBytesInto_zeroByteArray`).
-/

namespace AmazeChain.Rlp

/-- The Go types whose decoders the model has. -/
inductive Ty where
  /-- `[]byte` -/
  | bytes
  /-- `[n]byte` -/
  | byteArray (n : ℕ)
  /-- a slice of another type -/
  | slice (t : Ty)
  /-- a struct, by its exported fields and their names, none of them optional -/
  | struct (fields : List (String × Ty))
  /-- a pointer, without the `nil` tag -/
  | ptr (t : Ty)
  deriving Repr

/-- The values of a type: a struct's value is the list of its fields, and a pointer's value its element's. -/
inductive Dyn.HasType : Dyn → Ty → Prop where
  | bytes (b : List UInt8) : HasType (.bytes b) .bytes
  | byteArray (b : List UInt8) : HasType (.byteArray b) (.byteArray b.length)
  | slice {ds : List Dyn} {t : Ty} (h : ∀ d ∈ ds, HasType d t) : HasType (.list ds) (.slice t)
  | struct {ds : List Dyn} {fields : List (String × Ty)} (hlen : ds.length = fields.length)
      (h : ∀ p ∈ ds.zip fields, HasType p.1 p.2.2) : HasType (.list ds) (.struct fields)
  | ptr {d : Dyn} {t : Ty} (h : HasType d t) : HasType d (.ptr t)

/-! ### The decoders -/

/-- `decodeByteSlice`: `Bytes`, with the stream's errors as errors of decoding into `[]byte`. -/
def decodeByteSlice (s : Stream) : Except RlpError (List UInt8) × Stream :=
  match s.bytes with
  | (.error e, s) => (.error (wrapStreamError e), s)
  | (.ok b, s) => (.ok b, s)

/-- `decodeByteArray` into an array of `vlen` bytes: a single byte for an array of one, a string of exactly `vlen`
bytes otherwise.  The single byte is read by `Stream.Uint`, whose error on a zero byte is dropped; that error comes
before `Uint` rearms `Kind`. -/
def decodeByteArray (vlen : ℕ) (s : Stream) : Except RlpError (List UInt8) × Stream :=
  match s.kindAhead with
  | (.error e, s) => (.error e, s)
  | (.ok (.byte, _), s) =>
    if vlen = 0 then (.error (.decode "input string too long" []), s)
    else if vlen > 1 then (.error (.decode "input string too short" []), s)
    else if s.byteval = 0 then (.ok [0], s)
    else (.ok [s.byteval], { s with kind := none })
  | (.ok (.string, size), s) =>
    if vlen < size then (.error (.decode "input string too long" []), s)
    else if vlen > size then (.error (.decode "input string too short" []), s)
    else
      match s.readFull vlen with
      | (.error e, s) => (.error e, s)
      | (.ok b, s) =>
        -- a single byte below `0x80` should have been written as itself
        if size = 1 ∧ b.headD 0 < 128 then (.error (wrapStreamError .canonSize), s) else (.ok b, s)
  | (.ok (.list, _), s) => (.error (wrapStreamError .expectedString), s)

mutual

/-- The decoder `makeDecoder` makes for a type, applied to the stream.  The loop of a slice runs on the fuel of the
bytes left and one, and is `none` when that runs out. -/
def makeDecoder : Ty → Stream → Option (Except RlpError Dyn × Stream)
  | .bytes, s =>
    match decodeByteSlice s with
    | (.error e, s) => some (.error e, s)
    | (.ok b, s) => some (.ok (.bytes b), s)
  | .byteArray n, s =>
    match decodeByteArray n s with
    | (.error e, s) => some (.error e, s)
    | (.ok b, s) => some (.ok (.byteArray b), s)
  | .slice t, s =>
    match decodeListSlice (makeDecoder t) (s.r.length + 1) s with
    | none => none
    | some (.error e, s) => some (.error e, s)
    | some (.ok ds, s) => some (.ok (.list ds), s)
  -- `makeStructDecoder`: the fields within one list
  | .struct fields, s =>
    match s.list with
    | (.error e, s) => some (.error (wrapStreamError e), s)
    | (.ok _, s) =>
      match decodeFields fields s with
      | none => none
      | some (.error e, s) => some (.error e, s)
      | some (.ok ds, s) =>
        match s.listEnd with
        | (.error e, s) => some (.error (wrapStreamError e), s)
        | (.ok (), s) => some (.ok (.list ds), s)
  -- `makeSimplePtrDecoder`: the element, decoded into a new value
  | .ptr t, s => makeDecoder t s

/-- The loop of the struct decoder over the fields: `EOL` before a field is `too few elements`, and any other error
names the field. -/
def decodeFields : List (String × Ty) → Stream → Option (Except RlpError (List Dyn) × Stream)
  | [], s => some (.ok [], s)
  | (name, t) :: fields, s =>
    match makeDecoder t s with
    | none => none
    | some (.error e, s) =>
      some (.error (if e = .eol then .decode "too few elements" [] else addErrorContext e ("." ++ name)), s)
    | some (.ok d, s) =>
      match decodeFields fields s with
      | none => none
      | some (.error e, s) => some (.error e, s)
      | some (.ok ds, s) => some (.ok (d :: ds), s)

end

/-- The context `Stream.Decode` adds to a decoding error that has some: the type decoded into, named `typ`. -/
def typeContext (typ : String) (err : RlpError) : RlpError :=
  match err with
  | .decode msg ctx => if ctx = [] then err else .decode msg (ctx ++ ["(" ++ typ ++ ")"])
  | e => e

/-- `DecodeBytes` into a pointer to a value of type `t`, whose type is named `typ`: one value and nothing after it. -/
def decodeBytesInto (t : Ty) (typ : String) (b : List UInt8) : Option (Except RlpError Dyn) :=
  match makeDecoder t (Stream.reset b) with
  | none => none
  | some (.error e, _) => some (.error (typeContext typ e))
  | some (.ok d, s) => if s.r.length > 0 then some (.error .moreThanOneValue) else some (.ok d)

/-! ### Values that read back -/

mutual

/-- Whether a value holds an array of one byte that is zero. -/
def Dyn.holdsZeroByte : Dyn → Bool
  | .byteArray b => decide (b = [0])
  | .list ds => Dyn.anyHoldsZeroByte ds
  | _ => false

/-- Whether a value of the list holds an array of one byte that is zero. -/
def Dyn.anyHoldsZeroByte : List Dyn → Bool
  | [] => false
  | d :: ds => d.holdsZeroByte || Dyn.anyHoldsZeroByte ds

end

theorem Dyn.anyHoldsZeroByte_eq_false : ∀ {ds : List Dyn},
    Dyn.anyHoldsZeroByte ds = false → ∀ d ∈ ds, d.holdsZeroByte = false
  | d :: ds, h, e, he => by
    rw [Dyn.anyHoldsZeroByte, Bool.or_eq_false_iff] at h
    rcases List.mem_cons.1 he with rfl | he
    · exact h.1
    · exact Dyn.anyHoldsZeroByte_eq_false h.2 e he

theorem Dyn.toValues_eq_map : ∀ ds : List Dyn, Dyn.toValues ds = ds.map Dyn.toValue
  | [] => rfl
  | d :: ds => by rw [Dyn.toValues, Dyn.toValues_eq_map ds, List.map_cons]


/-- The encoding of a slice or a struct: a list of its elements' values. -/
theorem encode_list_toValue (ds : List Dyn) : (Dyn.list ds).toValue.encode =
    header .list (Value.encodeAll (ds.map Dyn.toValue)) ++ Value.encodeAll (ds.map Dyn.toValue) := by
  rw [Dyn.toValue, Dyn.toValues_eq_map]
  rfl

/-! ### The round trip -/

/-- `decodeByteSlice` reads a string back from its encoding. -/
theorem decodeByteSlice_encode {s : Stream} {b rest : List UInt8} (h64 : (Value.bytes b).encode.length < 2 ^ 64)
    (hs : s.Before (Value.bytes b).encode rest) :
    ∃ s', decodeByteSlice s = (.ok b, s') ∧ s.Moved s' (Value.bytes b).encode.length := by
  obtain ⟨s', hb, hm⟩ := Stream.bytes_encode h64 hs
  exact ⟨s', by rw [decodeByteSlice, hb], hm⟩

/-- `decodeByteArray` reads an array back from its encoding, unless it is one byte that is zero. -/
theorem decodeByteArray_encode {s : Stream} {b rest : List UInt8} (hz : b ≠ [0])
    (h64 : (Value.bytes b).encode.length < 2 ^ 64) (hs : s.Before (Value.bytes b).encode rest) :
    ∃ s', decodeByteArray b.length s = (.ok b, s') ∧ s.Moved s' (Value.bytes b).encode.length := by
  by_cases hb : b.length = 1 ∧ b.headD 0 ≤ 0x7F
  · -- a single byte below `0x80`, and not zero: `Uint` reads it and rearms `Kind`
    obtain ⟨x, rfl⟩ := List.length_eq_one_iff.1 hb.1
    have hx : x < 0x80 := UInt8.lt_iff_toNat_lt.2 (by have := UInt8.le_iff_toNat_le.1 hb.2; simp at this ⊢; omega)
    have hx0 : x ≠ 0 := fun h => hz (by rw [h])
    have he : (Value.bytes [x]).encode = [x] := by rw [Value.encode, if_pos hb]
    rw [he] at hs ⊢
    refine ⟨{ s.ahead 1 .byte 0 x with kind := none }, ?_, ⟨rfl, rfl, rfl, rfl, rfl⟩⟩
    rw [decodeByteArray, Stream.kindAhead_byte hs hx]
    dsimp only
    rw [if_neg (by simp), if_neg (by simp), if_neg (show (s.ahead 1 .byte 0 x).byteval ≠ 0 from hx0)]
    rfl
  · -- a string of exactly the array's length
    obtain ⟨hk, hread, hm⟩ := Stream.readString hb h64 hs
    refine ⟨_, ?_, hm⟩
    rw [decodeByteArray, hk]
    dsimp only
    rw [if_neg (Nat.lt_irrefl _), if_neg (Nat.lt_irrefl _), hread]
    dsimp only
    rw [if_neg (Stream.not_single_of_header hb)]

/-- At the end of a list the decoder of every type says `EOL`, having read nothing. -/
theorem makeDecoder_eol : ∀ (t : Ty) (s : Stream) (tos : Listpos) (outer : List Listpos), s.kind = none →
    s.stack = tos :: outer → tos.pos = tos.size → makeDecoder t s = some (.error .eol, { s with kinderr := none })
  | .bytes, s, _, _, hk, hst, hend => by
    simp only [makeDecoder, decodeByteSlice, Stream.bytes, Stream.kindAhead_eol hk hst hend]
    rfl
  | .byteArray _, s, _, _, hk, hst, hend => by
    simp only [makeDecoder, decodeByteArray, Stream.kindAhead_eol hk hst hend]
  | .slice _, s, _, _, hk, hst, hend => by
    simp only [makeDecoder, decodeListSlice, Stream.list, Stream.kindAhead_eol hk hst hend]
    rfl
  | .struct _, s, _, _, hk, hst, hend => by
    simp only [makeDecoder, Stream.list, Stream.kindAhead_eol hk hst hend]
    rfl
  | .ptr t, s, tos, outer, hk, hst, hend => makeDecoder_eol t s tos outer hk hst hend

/-- The loop of the struct decoder reads the fields one after another, each by the decoder of its type. -/
theorem decodeFields_reads : ∀ (ds : List Dyn) (fields : List (String × Ty)), ds.length = fields.length →
    (∀ p ∈ ds.zip fields, ∀ s rest, p.1.toValue.encode.length < 2 ^ 64 → s.Before p.1.toValue.encode rest →
      ∃ s', makeDecoder p.2.2 s = some (.ok p.1, s') ∧ s.Moved s' p.1.toValue.encode.length) →
    ∀ (s : Stream) (rest : List UInt8), (Value.encodeAll (ds.map Dyn.toValue)).length < 2 ^ 64 →
      s.Before (Value.encodeAll (ds.map Dyn.toValue)) rest →
      ∃ s', decodeFields fields s = some (.ok ds, s') ∧ s.Moved s' (Value.encodeAll (ds.map Dyn.toValue)).length
  | [], [], _, _, s, _, _, hs => ⟨s, rfl, Stream.Moved.refl hs.kind⟩
  | [], _ :: _, hlen, _, _, _, _, _ => absurd hlen (by simp)
  | _ :: _, [], hlen, _, _, _, _, _ => absurd hlen (by simp)
  | d :: ds, (name, t) :: fields, hlen, hread, s, rest, h64, hs => by
    rw [List.map_cons] at h64 hs ⊢
    have hs' : s.Before (d.toValue.encode ++ Value.encodeAll (ds.map Dyn.toValue)) rest := hs
    obtain ⟨h64d, h64s⟩ := length_encode_lt_of_cons h64
    obtain ⟨s1, hdec, hm⟩ := hread (d, (name, t)) List.mem_cons_self s _ h64d hs'.left
    obtain ⟨s2, hrest, hm2⟩ := decodeFields_reads ds fields (by simpa using hlen)
      (fun p hp => hread p (List.mem_cons_of_mem _ hp)) s1 rest h64s (hs'.moved hm)
    refine ⟨s2, ?_, ?_⟩
    · rw [decodeFields, hdec]
      dsimp only
      rw [hrest]
    · have := hm.trans hm2
      rwa [Value.encodeAll, List.length_append]

/-- The decoder of a type reads back every value of the type that holds no zero one-byte array, from its encoding,
whatever follows it. -/
theorem makeDecoder_encode {d : Dyn} {t : Ty} (h : d.HasType t) :
    d.holdsZeroByte = false → ∀ (s : Stream) (rest : List UInt8), d.toValue.encode.length < 2 ^ 64 →
      s.Before d.toValue.encode rest → ∃ s', makeDecoder t s = some (.ok d, s') ∧ s.Moved s' d.toValue.encode.length := by
  induction h with
  | bytes b =>
    intro _ s rest h64 hs
    obtain ⟨s', hb, hm⟩ := decodeByteSlice_encode h64 hs
    exact ⟨s', by rw [makeDecoder, hb], hm⟩
  | byteArray b =>
    intro hz s rest h64 hs
    have hz' : b ≠ [0] := by simpa [Dyn.holdsZeroByte] using hz
    obtain ⟨s', hb, hm⟩ := decodeByteArray_encode hz' h64 hs
    exact ⟨s', by rw [makeDecoder, hb], hm⟩
  | @slice ds t hds ih =>
    intro hz s rest h64 hs
    -- the list's header, the elements by the loop, and its end
    rw [encode_list_toValue] at hs h64 ⊢
    have hc : (Value.encodeAll (ds.map Dyn.toValue)).length < 2 ^ 64 := by rw [List.length_append] at h64; omega
    obtain ⟨s1, -, -, hlist, hs2, hst, hend⟩ := Stream.list_frame hc hs
    rw [makeDecoder, decodeListSlice, hlist]
    dsimp only
    by_cases h0 : (Value.encodeAll (ds.map Dyn.toValue)).length = 0
    · -- no elements: the loop is not entered
      have hds : ds = [] := List.map_eq_nil_iff.1 (encodeAll_eq_nil h0)
      subst hds
      obtain ⟨s3, hend3, hmoved⟩ := hend (s1.newList (Value.encodeAll (([] : List Dyn).map Dyn.toValue)).length)
        (by rw [h0]; exact Stream.Moved.refl rfl)
      refine ⟨s3, ?_, hmoved⟩
      rw [if_pos h0]
      dsimp only
      rw [hend3]
    · -- the elements, each read by the decoder of the element type
      have hzs := Dyn.anyHoldsZeroByte_eq_false hz
      have hlf : ds.length < s.r.length + 1 := by
        have := length_le_encodeAll (ds.map Dyn.toValue)
        rw [hs.r, List.length_append, List.length_append]
        rw [List.length_map] at this
        omega
      obtain ⟨s2, hloop, hm⟩ := decodeSliceElems_reads Dyn.toValue (makeDecoder_eol t) ds (s.r.length + 1) []
        _ rest (fun d hd => ih d hd (hzs d hd)) hlf hc hs2 hst
      obtain ⟨s3, hend3, hmoved⟩ := hend s2 hm
      refine ⟨s3, ?_, hmoved⟩
      rw [if_neg h0, hloop]
      dsimp only
      rw [hend3]
      simp
  | @struct ds fields hlen hds ih =>
    intro hz s rest h64 hs
    -- the list's header, the fields one after another, and its end
    rw [encode_list_toValue] at hs h64 ⊢
    have hc : (Value.encodeAll (ds.map Dyn.toValue)).length < 2 ^ 64 := by rw [List.length_append] at h64; omega
    obtain ⟨s1, -, -, hlist, hs2, -, hend⟩ := Stream.list_frame hc hs
    have hzs := Dyn.anyHoldsZeroByte_eq_false hz
    obtain ⟨s2, hfields, hm⟩ := decodeFields_reads ds fields hlen
      (fun p hp => ih p hp (hzs p.1 (List.of_mem_zip hp).1)) _ rest hc hs2
    obtain ⟨s3, hend3, hmoved⟩ := hend s2 hm
    refine ⟨s3, ?_, hmoved⟩
    rw [makeDecoder, hlist]
    dsimp only
    rw [hfields]
    dsimp only
    rw [hend3]
  | ptr _ ih =>
    intro hz s rest h64 hs
    exact ih hz s rest h64 hs


/-- `DecodeBytes` into a pointer to a type reads a value of the type back from the encoding of its RLP value. -/
theorem decodeBytesInto_encode {d : Dyn} {t : Ty} (h : d.HasType t) (hz : d.holdsZeroByte = false)
    (typ : String) (h64 : d.toValue.encode.length < 2 ^ 64) : decodeBytesInto t typ d.toValue.encode = some (.ok d) := by
  obtain ⟨s', hdec, hm⟩ := makeDecoder_encode h hz _ [] h64 (before_reset _)
  rw [decodeBytesInto, hdec]
  simp [hm.r, Stream.reset]

/-- `DecodeBytes` into a pointer to a type returns the value that `EncodeToBytes` wrote, for every value of the type
that holds no one-byte array of zero and whose encoding fits `2 ^ 64` bytes. -/
theorem decodeBytesInto_encodeToBytes {d : Dyn} {t : Ty} (h : d.HasType t) (hz : d.holdsZeroByte = false)
    (typ : String) (h64 : d.toValue.encode.length < 2 ^ 64) : decodeBytesInto t typ d.encodeToBytes = some (.ok d) := by
  rw [d.encodeToBytes_eq h64]
  exact decodeBytesInto_encode h hz typ h64

/-- A struct of a `[]byte` and a `[2]byte`, as `Item` would be with an array for its value. -/
def pairTy : Ty := .ptr (.struct [("Key", .bytes), ("Value", .byteArray 2)])

theorem decodeBytesInto_encodeToBytes_pair :
    (Dyn.list [.bytes [1, 2, 3], .byteArray [0, 0x80]]).HasType pairTy ∧
      (Dyn.list [.bytes [1, 2, 3], .byteArray [0, 0x80]]).holdsZeroByte = false ∧
      (Dyn.list [.bytes [1, 2, 3], .byteArray [0, 0x80]]).toValue.encode.length < 2 ^ 64 ∧
      decodeBytesInto pairTy "*T" (Dyn.list [.bytes [1, 2, 3], .byteArray [0, 0x80]]).encodeToBytes =
        some (.ok (.list [.bytes [1, 2, 3], .byteArray [0, 0x80]])) := by
  have ht : (Dyn.list [.bytes [1, 2, 3], .byteArray [0, 0x80]]).HasType pairTy := by
    refine .ptr (.struct rfl fun p hp => ?_)
    simp only [List.zip_cons_cons, List.zip_nil_right, List.mem_cons, List.not_mem_nil, or_false] at hp
    rcases hp with rfl | rfl
    · exact .bytes _
    · exact .byteArray _
  exact ⟨ht, rfl, by decide, decodeBytesInto_encodeToBytes ht rfl "*T" (by decide)⟩

/-- On the byte `0x00` the decoder of `[1]byte` sets the array to zero and leaves the stream on the byte, `Kind`
still armed. -/
theorem decodeByteArray_zero {s : Stream} {rest : List UInt8} (hs : s.Before [0] rest) :
    decodeByteArray 1 s = (.ok [0], s.ahead 1 .byte 0 0) := by
  rw [decodeByteArray, Stream.kindAhead_byte hs (by decide)]
  rfl

/-- A struct of two `[1]byte`. -/
def bytePairTy : Ty := .ptr (.struct [("A", .byteArray 1), ("B", .byteArray 1)])

/-- The value with a zero first field does not decode from its own encoding: the second field reads the zero byte
again, and the list ends one byte before the struct decoder thinks it should. -/
theorem decodeBytesInto_zeroByteArray :
    (Dyn.list [.byteArray [0], .byteArray [5]]).HasType bytePairTy ∧
      decodeBytesInto bytePairTy "*T" (Dyn.list [.byteArray [0], .byteArray [5]]).encodeToBytes =
        some (.error (.decode "input list has too many elements" [])) := by
  refine ⟨.ptr (.struct rfl fun p hp => ?_), rfl⟩
  simp only [List.zip_cons_cons, List.zip_nil_right, List.mem_cons, List.not_mem_nil, or_false] at hp
  rcases hp with rfl | rfl <;> exact .byteArray _

end AmazeChain.Rlp
