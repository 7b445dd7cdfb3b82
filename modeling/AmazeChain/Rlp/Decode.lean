import AmazeChain.Rlp.Stream

/-!
# Decoding into an `interface{}`

`DecodeBytes` into an `interface{}` decodes with `decodeInterface`: a list into an `[]interface{}` of its
elements, read by `decodeSliceElems` until `EOL`, anything else into the `[]byte` of `Bytes`; then no byte may
be left (`ErrMoreThanOneValue`).  The recursion of `decodeInterface` and the loop of `decodeSliceElems` run on fuel
here, and `decodeBytes` gives them one more than the input's length.

The two directions are proved on the stream: `decodeInterface` reads a value back from its encoding, whatever
follows it and at any depth of lists (`decodeInterface_encode`), and what it reads is the encoding of the value it
returns (`decodeInterface_eq_ok`).  So `DecodeBytes` accepts exactly the encodings of values
(`decodeBytes_eq_ok_iff`), the encoding is a prefix code (`encode_append_inj`), and the fuel never runs out
(`decodeBytes_ne_none`), because every element read takes at least one byte.
-/

namespace AmazeChain.Rlp

/-- `wrapStreamError`: the errors of a stream as a `decodeError`, for the type decoded into (left out). -/
def wrapStreamError (err : RlpError) : RlpError :=
  match err with
  | .canonInt => .decode "non-canonical integer (leading zero bytes)" []
  | .canonSize => .decode "non-canonical size information" []
  | .expectedList => .decode "expected input list" []
  | .expectedString => .decode "expected input string or byte" []
  | .uintOverflow => .decode "input string too long" []
  | .notAtEOL => .decode "input list has too many elements" []
  | e => e

/-- `addErrorContext`. -/
def addErrorContext (err : RlpError) (ctx : String) : RlpError :=
  match err with
  | .decode msg ctxs => .decode msg (ctxs ++ [ctx])
  | e => e

/-- `decodeSliceElems`: decode elements with `elemdec` until the end of the list, for at most `fuel` elements;
`none` when the fuel runs out. -/
def decodeSliceElems {α : Type} (elemdec : Stream → Option (Except RlpError α × Stream)) :
    ℕ → List α → Stream → Option (Except RlpError (List α) × Stream)
  | 0, _, _ => none
  | fuel + 1, acc, s =>
    match elemdec s with
    | none => none
    | some (.error .eol, s) => some (.ok acc.reverse, s)
    | some (.error e, s) => some (.error (addErrorContext e ("[" ++ toString acc.length ++ "]")), s)
    | some (.ok v, s) => decodeSliceElems elemdec fuel (v :: acc) s

/-- `decodeListSlice`: a list of elements decoded by `elemdec`. -/
def decodeListSlice {α : Type} (elemdec : Stream → Option (Except RlpError α × Stream)) (fuel : ℕ) (s : Stream) :
    Option (Except RlpError (List α) × Stream) :=
  match s.list with
  | (.error e, s) => some (.error (wrapStreamError e), s)
  | (.ok size, s) =>
    let elems : Option (Except RlpError (List α) × Stream) :=
      if size = 0 then some (.ok [], s) else decodeSliceElems elemdec fuel [] s
    match elems with
    | none => none
    | some (.error e, s) => some (.error e, s)
    | some (.ok vs, s) =>
      match s.listEnd with
      | (.error e, s) => some (.error e, s)
      | (.ok (), s) => some (.ok vs, s)

/-- `decodeInterface` into an empty interface: a list becomes an `[]interface{}` of its elements, anything else the
`[]byte` of `Bytes`; `none` when the fuel runs out. -/
def decodeInterface : ℕ → Stream → Option (Except RlpError Value × Stream)
  | 0, _ => none
  | fuel + 1, s =>
    match s.kindAhead with
    | (.error e, s) => some (.error e, s)
    | (.ok (kind, _), s) =>
      if kind = .list then
        match decodeListSlice (decodeInterface fuel) fuel s with
        | none => none
        | some (.error e, s) => some (.error e, s)
        | some (.ok vs, s) => some (.ok (.list vs), s)
      else
        match s.bytes with
        | (.error e, s) => some (.error e, s)
        | (.ok b, s) => some (.ok (.bytes b), s)

/-- The context `Decode` adds to a decoding error that has some: the type decoded into. -/
def decodeContext (err : RlpError) : RlpError :=
  match err with
  | .decode msg ctx => if ctx = [] then err else .decode msg (ctx ++ ["(interface \x7b\x7d)"])
  | e => e

/-- `DecodeBytes` into an `interface{}`: one value and nothing after it. -/
def decodeBytes (b : List UInt8) : Option (Except RlpError Value) :=
  match decodeInterface (b.length + 1) (Stream.reset b) with
  | none => none
  | some (.error e, _) => some (.error (decodeContext e))
  | some (.ok v, s) => if s.r.length > 0 then some (.error .moreThanOneValue) else some (.ok v)

/-! ### Lengths of encodings -/

theorem length_le_encodeAll : ∀ vs : List Value, vs.length ≤ (Value.encodeAll vs).length
  | [] => le_rfl
  | v :: vs => by
    have := length_encode_pos v
    have := length_le_encodeAll vs
    rw [Value.encodeAll, List.length_append, List.length_cons]
    omega

theorem length_encode_le_encodeAll {v : Value} : ∀ {vs : List Value}, v ∈ vs →
    v.encode.length ≤ (Value.encodeAll vs).length
  | w :: vs, h => by
    rw [Value.encodeAll, List.length_append]
    rcases List.mem_cons.1 h with rfl | h
    · omega
    · have := length_encode_le_encodeAll h
      omega

theorem encodeAll_eq_nil {vs : List Value} (h : (Value.encodeAll vs).length = 0) : vs = [] :=
  List.length_eq_zero_iff.1 (Nat.le_zero.1 (h ▸ length_le_encodeAll vs))

/-! ### The round trip -/

/-- `decodeInterface` reads a string or a single byte back from its encoding, whatever follows it: the case of
the round trip that does not recurse. -/
theorem decodeInterface_bytes (b : List UInt8) (fuel : ℕ) (s : Stream) (rest : List UInt8)
    (h64 : (Value.bytes b).encode.length < 2 ^ 64) (hs : s.Before (Value.bytes b).encode rest) :
    ∃ s', decodeInterface (fuel + 1) s = some (.ok (.bytes b), s') ∧ s.Moved s' (Value.bytes b).encode.length := by
  by_cases hb : b.length = 1 ∧ b.headD 0 ≤ 0x7F
  · -- a single byte below `0x80` is its own encoding
    obtain ⟨x, rfl⟩ := List.length_eq_one_iff.1 hb.1
    have hx : x < 0x80 := UInt8.lt_iff_toNat_lt.2 (by have := UInt8.le_iff_toNat_le.1 hb.2; simp at this ⊢; omega)
    have he : (Value.bytes [x]).encode = [x] := by rw [Value.encode, if_pos hb]
    rw [he] at hs ⊢
    refine ⟨{ s.ahead 1 .byte 0 x with kind := none }, ?_, ⟨rfl, rfl, rfl, rfl, rfl⟩⟩
    rw [decodeInterface, Stream.kindAhead_byte hs hx]
    dsimp only
    rw [if_neg (by decide), Stream.bytes_byte rfl rfl]
    rfl
  · -- a string: the header, then the bytes
    obtain ⟨hk, hread, hm⟩ := Stream.readString hb h64 hs
    refine ⟨_, ?_, hm⟩
    rw [decodeInterface, hk]
    dsimp only
    rw [if_neg (by decide)]
    simp only [Stream.bytes]
    rw [Stream.kindAhead_cached rfl rfl]
    dsimp only
    rw [Stream.ahead_size, hread]
    dsimp only
    rw [if_neg (Stream.not_single_of_header hb)]

/-- The loop of `decodeSliceElems`, with an element decoder that reads each element back from the encoding of its
RLP value `enc v` and says `EOL` at the end of a list, reads the elements of a list from its payload. -/
theorem decodeSliceElems_reads {α : Type} {elemdec : Stream → Option (Except RlpError α × Stream)} (enc : α → Value)
    (heol : ∀ s tos outer, s.kind = none → s.stack = tos :: outer → tos.pos = tos.size →
      elemdec s = some (.error .eol, { s with kinderr := none })) :
    ∀ (vs : List α) (lf : ℕ) (acc : List α) (s : Stream) (rest : List UInt8),
      (∀ v ∈ vs, ∀ s rest, (enc v).encode.length < 2 ^ 64 → s.Before (enc v).encode rest →
        ∃ s', elemdec s = some (.ok v, s') ∧ s.Moved s' (enc v).encode.length) →
      vs.length < lf → (Value.encodeAll (vs.map enc)).length < 2 ^ 64 →
      s.Before (Value.encodeAll (vs.map enc)) rest →
      (∃ tos outer, s.stack = tos :: outer ∧ tos.pos + (Value.encodeAll (vs.map enc)).length = tos.size) →
      ∃ s', decodeSliceElems elemdec lf acc s = some (.ok (acc.reverse ++ vs), s') ∧
        s.Moved s' (Value.encodeAll (vs.map enc)).length
  | _, 0, _, _, _, _, hlf, _, _, _ => absurd hlf (Nat.not_lt_zero _)
  | [], lf + 1, acc, s, rest, _, _, _, hs, ⟨tos, outer, hst, hend⟩ => by
    -- at the list's end the element decoder says `EOL`, and the loop stops
    have hend' : tos.pos = tos.size := by simpa [Value.encodeAll] using hend
    refine ⟨{ s with kinderr := none }, ?_,
      ⟨by simp [Value.encodeAll], by simp [Value.encodeAll], rfl, hs.kind, by simp [Value.encodeAll]⟩⟩
    rw [decodeSliceElems, heol s tos outer hs.kind hst hend']
    simp
  | v :: vs, lf + 1, acc, s, rest, hread, hlf, h64, hs, ⟨tos, outer, hst, hend⟩ => by
    -- the first element, then the rest of the list
    rw [List.map_cons] at h64 hs hend ⊢
    have hs' : s.Before ((enc v).encode ++ Value.encodeAll (vs.map enc)) rest := hs
    obtain ⟨h64v, h64s⟩ := length_encode_lt_of_cons h64
    obtain ⟨s1, hdec, hm⟩ := hread v List.mem_cons_self s _ h64v hs'.left
    have hend1 : ∃ tos outer, s1.stack = tos :: outer ∧
        tos.pos + (Value.encodeAll (vs.map enc)).length = tos.size := by
      refine ⟨{ tos with pos := tos.pos + (enc v).encode.length }, outer, by rw [hm.stack, hst]; rfl, ?_⟩
      rw [Value.encodeAll, List.length_append] at hend
      simp only
      omega
    obtain ⟨s2, hloop, hm2⟩ := decodeSliceElems_reads enc heol vs lf (v :: acc) s1 rest
      (fun w hw => hread w (List.mem_cons_of_mem _ hw)) (by rw [List.length_cons] at hlf; omega) h64s
      (hs'.moved hm) hend1
    refine ⟨s2, ?_, ?_⟩
    · rw [decodeSliceElems, hdec]
      dsimp only
      rw [hloop]
      simp
    · have := hm.trans hm2
      rwa [Value.encodeAll, List.length_append]

/-- `decodeInterface` reads a value back from its encoding, with enough fuel, whatever follows it. -/
theorem decodeInterface_encode : ∀ (v : Value) (fuel : ℕ) (s : Stream) (rest : List UInt8),
    v.encode.length < fuel → v.encode.length < 2 ^ 64 → s.Before v.encode rest →
    ∃ s', decodeInterface fuel s = some (.ok v, s') ∧ s.Moved s' v.encode.length
  | _, 0, _, _, hf, _, _ => absurd hf (Nat.not_lt_zero _)
  | .bytes b, fuel + 1, s, rest, _, h64, hs => decodeInterface_bytes b fuel s rest h64 hs
  | .list vs, fuel + 1, s, rest, hf, h64, hs => by
    -- the header, then the elements in a new list on the stack, then its end
    have he : (Value.list vs).encode = header .list (Value.encodeAll vs) ++ Value.encodeAll vs := rfl
    rw [he] at hs h64 hf ⊢
    have hc : (Value.encodeAll vs).length < 2 ^ 64 := by rw [List.length_append] at h64; omega
    have hh := length_header_pos (k := .list) (by decide) (Value.encodeAll vs)
    obtain ⟨s1, hk, hlist, -, hs2, hst, hend⟩ := Stream.list_frame hc hs
    have hdec : ∀ vs' s3, decodeListSlice (decodeInterface fuel) fuel s1 = some (.ok vs', s3) →
        decodeInterface (fuel + 1) s = some (.ok (.list vs'), s3) := by
      intro vs' s3 h
      rw [decodeInterface, hk]
      dsimp only
      rw [if_pos rfl, h]
    by_cases h0 : (Value.encodeAll vs).length = 0
    · -- no elements: the list ends at once
      have hvs : vs = [] := encodeAll_eq_nil h0
      subst hvs
      obtain ⟨s3, hend3, hmoved⟩ := hend (s1.newList (Value.encodeAll []).length)
        (by rw [h0]; exact Stream.Moved.refl rfl)
      refine ⟨_, hdec [] _ ?_, hmoved⟩
      rw [decodeListSlice, hlist]
      dsimp only
      rw [if_pos h0]
      dsimp only
      rw [hend3]
    · -- the elements, each read back with the fuel left, by the loop
      have hvf : ∀ v ∈ vs, v.encode.length < fuel := fun v hv => by
        have := length_encode_le_encodeAll hv
        rw [List.length_append] at hf
        omega
      have hlen := length_le_encodeAll vs
      obtain ⟨f, rfl⟩ : ∃ f, fuel = f + 1 := ⟨fuel - 1, by rw [List.length_append] at hf; omega⟩
      have heol : ∀ s tos outer, s.kind = none → s.stack = tos :: outer → tos.pos = tos.size →
          decodeInterface (f + 1) s = some (.error .eol, { s with kinderr := none }) := fun s tos outer hk hst hend => by
        rw [decodeInterface, Stream.kindAhead_eol hk hst hend]
      rw [← List.map_id vs] at hc hs2 hst
      obtain ⟨s2, hloop, hm⟩ := decodeSliceElems_reads id heol vs (f + 1) [] (s1.newList _) rest
        (fun v hv s rest h64 hs => decodeInterface_encode v (f + 1) s rest (hvf v hv) h64 hs)
        (by rw [List.length_append] at hf; omega) hc hs2 hst
      rw [List.map_id] at hm hloop
      obtain ⟨s3, hend3, hmoved⟩ := hend s2 hm
      refine ⟨_, hdec vs _ ?_, hmoved⟩
      rw [decodeListSlice, hlist]
      dsimp only
      rw [if_neg h0, hloop]
      dsimp only
      rw [hend3]
      simp

/-! ### What the decoder accepts -/

theorem addErrorContext_eq_eol {e : RlpError} {ctx : String} (h : addErrorContext e ctx = .eol) : e = .eol := by
  cases e <;> simp_all [addErrorContext]

/-- The loop never passes `EOL` on: it ends the list. -/
theorem decodeSliceElems_ne_eol {α : Type} (elemdec : Stream → Option (Except RlpError α × Stream)) :
    ∀ (lf : ℕ) (acc : List α) (s s' : Stream), decodeSliceElems elemdec lf acc s ≠ some (.error .eol, s')
  | 0, _, _, _ => by simp [decodeSliceElems]
  | lf + 1, acc, s, s' => by
    rw [decodeSliceElems]
    rcases h : elemdec s with _ | ⟨_ | v, s1⟩
    · simp
    · rename_i e
      by_cases he : e = .eol
      · subst he
        simp
      · have : addErrorContext e ("[" ++ toString acc.length ++ "]") ≠ .eol := fun h => he (addErrorContext_eq_eol h)
        cases e <;> simp_all
    · exact decodeSliceElems_ne_eol elemdec lf (v :: acc) s1 s'

/-- The loop reads a list's elements one after another, each an encoding of its value, for any element decoder
that reads only encodings and says `EOL` only at the list's end. -/
theorem decodeSliceElems_eq_ok {elemdec : Stream → Option (Except RlpError Value × Stream)}
    (hdec : ∀ s s' v, s.kind = none → s.limited = true → elemdec s = some (.ok v, s') →
      s.r = v.encode ++ s'.r ∧ s.Moved s' v.encode.length)
    (heol : ∀ s s', s.kind = none → elemdec s = some (.error .eol, s') → s' = { s with kinderr := none }) :
    ∀ (lf : ℕ) (acc : List Value) (s s' : Stream) (vs : List Value), s.kind = none → s.limited = true →
      decodeSliceElems elemdec lf acc s = some (.ok vs, s') →
      ∃ ws, vs = acc.reverse ++ ws ∧ s.r = Value.encodeAll ws ++ s'.r ∧ s.Moved s' (Value.encodeAll ws).length
  | 0, _, _, _, _, _, _, h => by simp [decodeSliceElems] at h
  | lf + 1, acc, s, s', vs, hk, hl, h => by
    rw [decodeSliceElems] at h
    rcases hd : elemdec s with _ | ⟨_ | v, s1⟩
    · simp [hd] at h
    · rename_i e
      by_cases he : e = .eol
      · -- the end of the list: nothing more read
        subst he
        simp only [hd, Option.some.injEq, Prod.mk.injEq, Except.ok.injEq] at h
        obtain ⟨rfl, rfl⟩ := h
        have := heol s s1 hk hd
        subst this
        exact ⟨[], by simp, by simp [Value.encodeAll], ⟨by simp [Value.encodeAll], by simp [Value.encodeAll], rfl,
          hk, by simp [Value.encodeAll]⟩⟩
      · cases e <;> simp_all
    · -- one element, then the rest of the loop
      rw [hd] at h
      obtain ⟨hr1, hm1⟩ := hdec s s1 v hk hl hd
      obtain ⟨ws, rfl, hr2, hm2⟩ := decodeSliceElems_eq_ok hdec heol lf (v :: acc) s1 s' vs hm1.kind
        (by rw [hm1.limited, hl]) h
      refine ⟨v :: ws, by simp, by rw [hr1, hr2, Value.encodeAll, List.append_assoc], ?_⟩
      have := hm1.trans hm2
      rwa [Value.encodeAll, List.length_append]

/-- Once `Kind` has read a list's header, decoding the list does not say `EOL`: neither the loop nor `ListEnd`
does. -/
theorem decodeListSlice_ne_eol {α : Type} (elemdec : Stream → Option (Except RlpError α × Stream)) (fuel : ℕ)
    {s : Stream} (hk : s.kind = some .list) (he : s.kinderr = none) (s' : Stream) :
    decodeListSlice elemdec fuel s ≠ some (.error .eol, s') := by
  rw [decodeListSlice, Stream.list_cached hk he]
  dsimp only
  -- the elements, then `ListEnd`
  have hend : ∀ (t : Stream) (vs : List α), (match t.listEnd with
      | (Except.error e, s) => some (Except.error e, s)
      | (Except.ok (), s) => some (Except.ok vs, s) : Option (Except RlpError (List α) × Stream)) ≠
        some (.error .eol, s') := by
    intro t vs
    have := t.listEnd_ne_eol
    rcases hle : t.listEnd with ⟨e | u, s5⟩
    · rw [hle] at this
      simp only [ne_eq, Option.some.injEq, Prod.mk.injEq, Except.error.injEq, not_and]
      intro h
      exact absurd (by rw [h]) this
    · simp
  split_ifs
  · exact hend _ _
  · rcases hl : decodeSliceElems elemdec fuel [] (s.newList s.size) with _ | ⟨_ | vs, s4⟩
    · simp
    · rename_i e
      simp only [ne_eq, Option.some.injEq, Prod.mk.injEq, Except.error.injEq, not_and]
      rintro rfl rfl
      exact decodeSliceElems_ne_eol _ _ _ _ _ hl
    · exact hend _ _

/-- `decodeInterface` says `EOL` only at the end of a list, where it reads nothing. -/
theorem decodeInterface_eq_eol : ∀ (fuel : ℕ) (s s' : Stream), s.kind = none →
    decodeInterface fuel s = some (.error .eol, s') → s' = { s with kinderr := none }
  | 0, _, _, _, h => by simp [decodeInterface] at h
  | fuel + 1, s, s', hk, h => by
    rw [decodeInterface] at h
    rcases hka : s.kindAhead with ⟨e | ⟨k, size⟩, s1⟩
    · rw [hka] at h
      simp only [Option.some.injEq, Prod.mk.injEq, Except.error.injEq] at h
      obtain ⟨rfl, rfl⟩ := h
      exact Stream.kindAhead_eq_eol hk hka
    exfalso
    rw [hka] at h
    obtain ⟨s0, -, rfl⟩ := Stream.kindAhead_eq_ok hk hka
    dsimp only at h
    split_ifs at h with hlist
    · -- a list
      subst hlist
      rcases hd : decodeListSlice (decodeInterface fuel) fuel
        ({ s0 with kind := some .list, size := size, kinderr := none } : Stream) with _ | ⟨_ | vs, s4⟩
      · simp [hd] at h
      · rename_i e
        rw [hd] at h
        simp only [Option.some.injEq, Prod.mk.injEq, Except.error.injEq] at h
        obtain ⟨rfl, rfl⟩ := h
        exact decodeListSlice_ne_eol _ _ rfl rfl _ hd
      · simp [hd] at h
    · -- a string or a byte: `Bytes` does not say `EOL`
      have := Stream.bytes_ne_eol (s := { s0 with kind := some k, size := size, kinderr := none }) rfl rfl
      rcases hb : ({ s0 with kind := some k, size := size, kinderr := none } : Stream).bytes with ⟨e | b, s2⟩
      · rw [hb] at h this
        simp only [Option.some.injEq, Prod.mk.injEq, Except.error.injEq] at h
        exact this (by rw [h.1])
      · rw [hb] at h
        simp at h

/-- The list `decodeListSlice` reads after its header: once `ListEnd` succeeds, the elements fill the list
exactly. -/
theorem list_of_listEnd {s t' s4 : Stream} {hdr rest : List UInt8} {size : ℕ} {ws : List Value}
    (hr : s.r = hdr ++ rest) (hhdr : ∀ c : List UInt8, c.length = size → header .list c = hdr)
    (ht : ((s.ahead hdr.length .list size 0).newList size).r = Value.encodeAll ws ++ t'.r)
    (hm : ((s.ahead hdr.length .list size 0).newList size).Moved t' (Value.encodeAll ws).length)
    (hle : t'.listEnd = (.ok (), s4)) :
    s.r = (Value.list ws).encode ++ s4.r ∧ s.Moved s4 (Value.list ws).encode.length := by
  obtain ⟨tos, outer, hst, hend, rfl⟩ := Stream.listEnd_eq_ok.1 hle
  rw [hm.stack] at hst
  simp only [Stream.newList, Stream.ahead_stack, advance_cons, List.cons.injEq] at hst
  obtain ⟨rfl, rfl⟩ := hst
  -- the list's position reached its size: the elements' encodings fill it
  have hsize : (Value.encodeAll ws).length = size := by simpa using hend
  have he : (Value.list ws).encode = hdr ++ Value.encodeAll ws := by
    rw [← hhdr _ hsize]
    rfl
  have hrest : rest = Value.encodeAll ws ++ t'.r := by
    rw [← ht]
    simp [Stream.newList, hr]
  refine ⟨by rw [he, hr, hrest, List.append_assoc], ?_⟩
  rw [he, List.length_append, hsize]
  exact ⟨by simp [hm.r, Stream.newList, List.drop_drop, hsize], by simp [hm.remaining, Stream.newList, Nat.sub_sub,
    hsize], by simp [hm.limited, Stream.newList], rfl, by simp [advance_advance]⟩

/-- The string `Bytes` reads after its header: its content, which no single byte below `0x80` is, so the header
and the content are the value's encoding. -/
theorem string_of_bytes {s s' : Stream} {hdr rest b : List UInt8} {size : ℕ} (hl : s.limited = true)
    (hr : s.r = hdr ++ rest) (hhdr : ∀ c : List UInt8, c.length = size → header .string c = hdr)
    (h : (s.ahead hdr.length .string size 0).bytes = (.ok b, s')) :
    s.r = (Value.bytes b).encode ++ s'.r ∧ s.Moved s' (Value.bytes b).encode.length := by
  simp only [Stream.bytes, Stream.kindAhead_cached (s := s.ahead hdr.length .string size 0) rfl rfl,
    Stream.ahead_size] at h
  rcases hrf : (s.ahead hdr.length .string size 0).readFull size with ⟨e | b', s2⟩
  · simp [hrf] at h
  rw [hrf] at h
  dsimp only at h
  obtain ⟨-, hn, rfl, rfl⟩ := (Stream.readFull_eq_ok (by simpa using hl)).1 hrf
  split_ifs at h with hc
  · simp at h
  simp only [Prod.mk.injEq, Except.ok.injEq] at h
  obtain ⟨rfl, rfl⟩ := h
  have hrest : (s.ahead hdr.length .string size 0).r = rest := by simp [hr]
  rw [hrest] at hn hc ⊢
  have hlen : (rest.take size).length = size := by simp [hn]
  have he : (Value.bytes (rest.take size)).encode = hdr ++ rest.take size := by
    have hnot : ¬((rest.take size).length = 1 ∧ (rest.take size).headD 0 ≤ 0x7F) := fun h => hc ⟨by omega,
      UInt8.lt_iff_toNat_lt.2 (by have := UInt8.le_iff_toNat_le.1 h.2; simp at this ⊢; omega)⟩
    rw [Value.encode, if_neg hnot, ← hhdr _ hlen]
    rfl
  refine ⟨by rw [he, hr, List.append_assoc, Stream.consume_r, hrest, List.take_append_drop], ?_⟩
  rw [he, List.length_append, hlen]
  exact Stream.moved_ahead_consume s _ _ _ _ _

/-- What `decodeInterface` reads is the encoding of the value it returns: the decoder accepts no other form. -/
theorem decodeInterface_eq_ok : ∀ (fuel : ℕ) (s s' : Stream) (v : Value), s.kind = none → s.limited = true →
    decodeInterface fuel s = some (.ok v, s') → s.r = v.encode ++ s'.r ∧ s.Moved s' v.encode.length
  | 0, _, _, _, _, _, h => by simp [decodeInterface] at h
  | fuel + 1, s, s', v, hk, hl, h => by
    rw [decodeInterface] at h
    rcases hka : s.kindAhead with ⟨e | ⟨k, size⟩, s1⟩
    · rw [hka] at h
      simp at h
    rw [hka] at h
    obtain ⟨s0, hrk, rfl⟩ := Stream.kindAhead_eq_ok hk hka
    dsimp only at h
    rcases Stream.readKind_eq_ok (s := { s with kinderr := none }) hl hrk with
      ⟨rfl, rfl, x, rest, hx, hr, rfl⟩ | ⟨hkb, h64, hdr, rest, hr, hhdr, rfl⟩
    · -- a single byte below `0x80`, its own encoding
      rw [if_neg (by decide), Stream.bytes_byte rfl rfl] at h
      simp only [Option.some.injEq, Prod.mk.injEq, Except.ok.injEq] at h
      obtain ⟨rfl, rfl⟩ := h
      have hx' : x ≤ 0x7F := UInt8.le_iff_toNat_le.2 (by have := UInt8.lt_iff_toNat_lt.1 hx; simp at this ⊢; omega)
      have he : (Value.bytes [x]).encode = [x] := by
        rw [Value.encode, if_pos ⟨rfl, hx'⟩]
      have hr' : s.r = x :: rest := hr
      refine ⟨by rw [he, hr']; simp [Stream.consume], ?_⟩
      rw [he]
      exact ⟨by simp [Stream.consume], by simp [Stream.consume], rfl, rfl, by simp [Stream.consume]⟩
    -- a header: the stream after it is `ahead`
    have hs1 : ({ ({ ({ s with kinderr := none } : Stream).consume hdr.length with byteval := 0 } : Stream) with
        kind := some k, size := size, kinderr := none } : Stream) = s.ahead hdr.length k size 0 := rfl
    have hr' : s.r = hdr ++ rest := hr
    rw [hs1] at h
    split_ifs at h with hlist
    · -- a list: its elements, then `ListEnd`
      subst hlist
      rcases hd : decodeListSlice (decodeInterface fuel) fuel (s.ahead hdr.length .list size 0) with
        _ | ⟨_ | vs, s4⟩
      · simp [hd] at h
      · simp [hd] at h
      rw [hd] at h
      simp only [Option.some.injEq, Prod.mk.injEq, Except.ok.injEq] at h
      obtain ⟨rfl, rfl⟩ := h
      rw [decodeListSlice, Stream.list_cached rfl rfl, Stream.ahead_size] at hd
      dsimp only at hd
      split_ifs at hd with h0
      · -- no elements
        dsimp only at hd
        rcases hle : ((s.ahead hdr.length .list size 0).newList size).listEnd with ⟨e | u, s5⟩
        · simp [hle] at hd
        rw [hle] at hd
        simp only [Option.some.injEq, Prod.mk.injEq, Except.ok.injEq] at hd
        obtain ⟨rfl, rfl⟩ := hd
        exact list_of_listEnd hr' hhdr (by simp [Value.encodeAll]) (Stream.Moved.refl rfl) hle
      · -- the loop over the elements
        rcases hloop : decodeSliceElems (decodeInterface fuel) fuel []
          ((s.ahead hdr.length .list size 0).newList size) with _ | ⟨_ | ws, s5⟩
        · simp [hloop] at hd
        · simp [hloop] at hd
        rw [hloop] at hd
        dsimp only at hd
        rcases hle : s5.listEnd with ⟨e | u, s6⟩
        · simp [hle] at hd
        rw [hle] at hd
        simp only [Option.some.injEq, Prod.mk.injEq, Except.ok.injEq] at hd
        obtain ⟨rfl, rfl⟩ := hd
        obtain ⟨ws', rfl, ht, hm⟩ := decodeSliceElems_eq_ok (decodeInterface_eq_ok fuel)
          (decodeInterface_eq_eol fuel) fuel [] _ s5 ws rfl (by simpa [Stream.newList] using hl) hloop
        exact list_of_listEnd hr' hhdr (by simpa using ht) (by simpa using hm) hle
    · -- a string: `Bytes` reads its content
      obtain rfl : k = .string := by
        cases k with
        | byte => exact absurd rfl hkb
        | string => rfl
        | list => exact absurd rfl hlist
      rcases hb : (s.ahead hdr.length .string size 0).bytes with ⟨e | b, s2⟩
      · rw [hb] at h; simp at h
      rw [hb] at h
      simp only [Option.some.injEq, Prod.mk.injEq, Except.ok.injEq] at h
      obtain ⟨rfl, rfl⟩ := h
      exact string_of_bytes hl hr' hhdr hb

/-! ### The fuel is enough -/

/-- The loop ends before its fuel does, for an element decoder that ends with fuel to spare and reads at least
one byte for every element. -/
theorem decodeSliceElems_ne_none {elemdec : Stream → Option (Except RlpError Value × Stream)} {f : ℕ}
    (hsome : ∀ s, s.kind = none → s.limited = true → s.r.length < f → elemdec s ≠ none)
    (hdec : ∀ s s' v, s.kind = none → s.limited = true → elemdec s = some (.ok v, s') →
      s.r = v.encode ++ s'.r ∧ s.Moved s' v.encode.length) :
    ∀ (lf : ℕ) (acc : List Value) (s : Stream), s.kind = none → s.limited = true → s.r.length < lf →
      s.r.length < f → decodeSliceElems elemdec lf acc s ≠ none
  | 0, _, _, _, _, hlf, _ => absurd hlf (Nat.not_lt_zero _)
  | lf + 1, acc, s, hk, hl, hlf, hf => by
    rw [decodeSliceElems]
    rcases hd : elemdec s with _ | ⟨_ | v, s1⟩
    · exact absurd hd (hsome s hk hl hf)
    · rename_i e
      cases e <;> simp
    · -- an element takes at least one byte, and the loop one unit of fuel
      obtain ⟨hr, hm⟩ := hdec s s1 v hk hl hd
      have hv := length_encode_pos v
      have hlen : s1.r.length + v.encode.length = s.r.length := by
        rw [hr, List.length_append]
        omega
      exact decodeSliceElems_ne_none hsome hdec lf (v :: acc) s1 hm.kind (by rw [hm.limited, hl]) (by omega)
        (by omega)

/-- `decodeInterface` with more fuel than bytes left always comes to a result. -/
theorem decodeInterface_ne_none : ∀ (fuel : ℕ) (s : Stream), s.kind = none → s.limited = true →
    s.r.length < fuel → decodeInterface fuel s ≠ none
  | 0, _, _, _, h => absurd h (Nat.not_lt_zero _)
  | fuel + 1, s, hk, hl, hlen => by
    rw [decodeInterface]
    rcases hka : s.kindAhead with ⟨e | ⟨k, size⟩, s1⟩
    · simp
    dsimp only
    split_ifs with hlist
    · -- a list: after its header fewer bytes are left than the fuel
      subst hlist
      obtain ⟨s0, hrk, rfl⟩ := Stream.kindAhead_eq_ok hk hka
      rcases Stream.readKind_eq_ok (s := { s with kinderr := none }) hl hrk with
        ⟨h, -⟩ | ⟨-, -, hdr, rest, hr, hhdr, rfl⟩
      · cases h
      have hpos : 0 < hdr.length := by
        rw [← hhdr (List.replicate size 0) (by simp)]
        exact length_header_pos (by decide) _
      have hr' : s.r = hdr ++ rest := hr
      have hrest : ((s.ahead hdr.length .list size 0).newList size).r.length < fuel := by
        rw [hr', List.length_append] at hlen
        simp [Stream.newList, hr']
        omega
      rw [show ({ ({ ({ s with kinderr := none } : Stream).consume hdr.length with byteval := 0 } : Stream) with
          kind := some .list, size := size, kinderr := none } : Stream) = s.ahead hdr.length .list size 0 from rfl]
      rcases hd : decodeListSlice (decodeInterface fuel) fuel (s.ahead hdr.length .list size 0) with _ | r
      · exfalso
        rw [decodeListSlice, Stream.list_cached rfl rfl, Stream.ahead_size] at hd
        dsimp only at hd
        split_ifs at hd
        · dsimp only at hd
          rcases hle : ((s.ahead hdr.length .list size 0).newList size).listEnd with ⟨_ | _, _⟩ <;>
            rw [hle] at hd <;> simp at hd
        rcases hloop : decodeSliceElems (decodeInterface fuel) fuel [] ((s.ahead hdr.length .list size 0).newList size)
          with _ | r
        · exact decodeSliceElems_ne_none (decodeInterface_ne_none fuel) (decodeInterface_eq_ok fuel) fuel []
            _ rfl (by simpa [Stream.newList] using hl) hrest hrest hloop
        · rw [hloop] at hd
          rcases r with ⟨_ | vs, s4⟩ <;> simp at hd
          rcases hle : s4.listEnd with ⟨_ | _, _⟩ <;> rw [hle] at hd <;> simp at hd
      · rcases r with ⟨_ | vs, s4⟩ <;> simp
    · rcases hb : s1.bytes with ⟨e | b, s2⟩ <;> simp

/-! ### `DecodeBytes` -/

theorem before_reset (b : List UInt8) : (Stream.reset b).Before b [] :=
  ⟨by simp [Stream.reset], rfl, rfl, rfl, by simp [Stream.reset]⟩

/-- On a fresh stream over an encoding and what follows it, with the fuel `DecodeBytes` gives, the decoder reads
the value and leaves what follows. -/
theorem decodeInterface_reset (v : Value) (r : List UInt8) (hv : v.encode.length < 2 ^ 64) :
    ∃ s', decodeInterface ((v.encode ++ r).length + 1) (Stream.reset (v.encode ++ r)) = some (.ok v, s') ∧
      s'.r = r := by
  have hs : (Stream.reset (v.encode ++ r)).Before v.encode r := by
    simpa using (before_reset (v.encode ++ r)).left
  obtain ⟨s', hdec, hm⟩ := decodeInterface_encode v ((v.encode ++ r).length + 1) _ r
    (by rw [List.length_append]; omega) hv hs
  exact ⟨s', hdec, by rw [hm.r, hs.r, List.drop_left]⟩

/-- `DecodeBytes` comes to a result on every input: the fuel it gives the decoder never runs out. -/
theorem decodeBytes_ne_none (b : List UInt8) : decodeBytes b ≠ none := by
  have := decodeInterface_ne_none (b.length + 1) (Stream.reset b) rfl rfl (by simp [Stream.reset])
  unfold decodeBytes
  rcases hd : decodeInterface (b.length + 1) (Stream.reset b) with _ | ⟨_ | v, s'⟩
  · exact absurd hd this
  · simp
  · dsimp only
    split_ifs <;> simp

/-- `DecodeBytes` accepts exactly the encodings of values, and returns the value encoded: it reads back every
encoding, and reads no other input, so no value has two inputs. -/
theorem decodeBytes_eq_ok_iff {b : List UInt8} {v : Value} (hb : b.length < 2 ^ 64) :
    decodeBytes b = some (.ok v) ↔ v.encode = b := by
  constructor
  · intro h
    unfold decodeBytes at h
    rcases hd : decodeInterface (b.length + 1) (Stream.reset b) with _ | ⟨_ | v', s'⟩
    · simp [hd] at h
    · simp [hd] at h
    rw [hd] at h
    dsimp only at h
    split_ifs at h with hr
    · simp at h
    simp only [Option.some.injEq, Except.ok.injEq] at h
    subst h
    obtain ⟨hb', -⟩ := decodeInterface_eq_ok _ _ _ _ rfl rfl hd
    rw [List.eq_nil_of_length_eq_zero (by omega : s'.r.length = 0), List.append_nil] at hb'
    exact hb'.symm
  · rintro rfl
    obtain ⟨s', hdec, hm⟩ := decodeInterface_encode v _ _ [] (Nat.lt_succ_self _) hb (by
      simpa using before_reset v.encode)
    rw [decodeBytes, hdec]
    simp [hm.r, Stream.reset]

theorem decodeBytes_eq_ok_iff_nestedValue : nestedValue.encode.length < 2 ^ 64 ∧
    (decodeBytes nestedValue.encode = some (.ok nestedValue) ↔ nestedValue.encode = nestedValue.encode) :=
  ⟨by decide, decodeBytes_eq_ok_iff (by decide)⟩

/-- Bytes after an encoding are `ErrMoreThanOneValue`. -/
theorem decodeBytes_encode_append (v : Value) (h : v.encode.length < 2 ^ 64) {extra : List UInt8}
    (he : extra ≠ []) : decodeBytes (v.encode ++ extra) = some (.error .moreThanOneValue) := by
  obtain ⟨s', hdec, hr⟩ := decodeInterface_reset v extra h
  rw [decodeBytes, hdec]
  dsimp only
  rw [if_pos (by rw [hr]; exact List.length_pos_iff.2 he)]

theorem decodeBytes_encode_append_nestedValue : nestedValue.encode.length < 2 ^ 64 ∧ [(0 : UInt8)] ≠ [] ∧
    decodeBytes (nestedValue.encode ++ [0]) = some (.error .moreThanOneValue) :=
  ⟨by decide, List.cons_ne_nil 0 [], decodeBytes_encode_append nestedValue (by decide) (List.cons_ne_nil 0 [])⟩

/-- The encoding is a prefix code: an encoding followed by anything determines the value and what follows, so
encodings one after another, as in a list's payload, split one way only. -/
theorem encode_append_inj {v w : Value} {r r' : List UInt8} (hv : v.encode.length < 2 ^ 64)
    (hw : w.encode.length < 2 ^ 64) (h : v.encode ++ r = w.encode ++ r') : v = w ∧ r = r' := by
  -- decode both from one stream: the decoder gives one answer
  obtain ⟨s1, h1, e1⟩ := decodeInterface_reset v r hv
  obtain ⟨s2, h2, e2⟩ := decodeInterface_reset w r' hw
  rw [← h, h1] at h2
  simp only [Option.some.injEq, Prod.mk.injEq, Except.ok.injEq] at h2
  obtain ⟨rfl, rfl⟩ := h2
  exact ⟨rfl, e1.symm.trans e2⟩

/-- Encodings one after another split one way only: the payload of a list determines its elements. -/
theorem encodeAll_inj : ∀ {vs ws : List Value}, (∀ v ∈ vs, v.encode.length < 2 ^ 64) →
    (∀ w ∈ ws, w.encode.length < 2 ^ 64) → Value.encodeAll vs = Value.encodeAll ws → vs = ws
  | [], [], _, _, _ => rfl
  | [], w :: ws, _, _, h => by
    have hl := congrArg List.length h
    rw [Value.encodeAll, Value.encodeAll, List.length_nil, List.length_append] at hl
    have := length_encode_pos w
    omega
  | v :: vs, [], _, _, h => by
    have hl := congrArg List.length h
    rw [Value.encodeAll, Value.encodeAll, List.length_nil, List.length_append] at hl
    have := length_encode_pos v
    omega
  | v :: vs, w :: ws, hv, hw, h => by
    rw [Value.encodeAll, Value.encodeAll] at h
    -- the first value is read off the front, as the decoder reads it
    obtain ⟨s1, h1, e1⟩ := decodeInterface_reset v (Value.encodeAll vs) (hv v List.mem_cons_self)
    obtain ⟨s2, h2, e2⟩ := decodeInterface_reset w (Value.encodeAll ws) (hw w List.mem_cons_self)
    rw [← h, h1] at h2
    simp only [Option.some.injEq, Prod.mk.injEq, Except.ok.injEq] at h2
    obtain ⟨rfl, rfl⟩ := h2
    rw [encodeAll_inj (fun u hu => hv u (List.mem_cons_of_mem _ hu)) (fun u hu => hw u (List.mem_cons_of_mem _ hu))
      (e1.symm.trans e2)]

theorem encode_append_inj_nestedValue : nestedValue.encode.length < 2 ^ 64 ∧
    nestedValue.encode ++ [(1 : UInt8)] = nestedValue.encode ++ [1] ∧ (nestedValue = nestedValue ∧ [(1 : UInt8)] = [1]) :=
  ⟨by decide, rfl, encode_append_inj (by decide) (by decide) rfl⟩

end AmazeChain.Rlp
