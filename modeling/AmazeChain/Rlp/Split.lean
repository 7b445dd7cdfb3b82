import AmazeChain.Rlp.Encode

/-!
# Splitting RLP values

`raw.go` reads RLP without a stream: `readKind` reads the header at the front of a byte slice, the kind of the
value, the length of the header and the length of the content, and rejects every header that is not the one the
encoder writes (`ErrCanonSize`: a single byte below `0x80` given a string header, a size below 56 given a separate
length, a length with a leading zero byte) and every value longer than the slice (`ErrValueTooLarge`).  `Split`,
`SplitString` and `SplitList` cut the value off the front; `SplitUint64` reads an integer; `CountValues` counts the
values of a list's content.

`split_eq_ok_iff` says exactly what `Split` accepts: a slice is split into a kind, a content and a rest if and only
if it is the header the encoder writes for that kind and content, then the content, then the rest, and the content
is one the kind allows (`Canonical`).  Every encoded value is therefore split back into its kind and content
(`encode_eq_header`, `canonical_kind`), and `CountValues` counts the values of an encoded payload
(`countValues_encodeAll`).  An integer
reads back from what `AppendUint64` writes, and from nothing else (`splitUint64_eq_ok_iff`).
-/

namespace AmazeChain.Rlp

/-- `Kind`: what an RLP value is. -/
inductive Kind where
  | byte
  | string
  | list
  deriving DecidableEq, Repr

/-- The errors of the codec that the modelled functions return: the sentinels of `decode.go`, `io.EOF` and
`io.ErrUnexpectedEOF`, and the `decodeError` of `wrapStreamError` with its message and context. -/
inductive RlpError where
  | eol
  | expectedString
  | expectedList
  | canonInt
  | canonSize
  | elemTooLarge
  | valueTooLarge
  | moreThanOneValue
  | notInList
  | notAtEOL
  | uintOverflow
  | eof
  | unexpectedEOF
  | decode (msg : String) (ctx : List String)
  deriving DecidableEq, Repr

/-- `readSize`: a size of `slen` bytes, big-endian; sizes below 56 and sizes with a leading zero byte are not
canonical. -/
def readSize (b : List UInt8) (slen : ℕ) : Except RlpError ℕ :=
  if slen > b.length then .error .unexpectedEOF
  else
    let s := if 1 ≤ slen ∧ slen ≤ 8 then BigEndian.toNat (b.take slen) else 0
    if s < 56 ∨ b.headD 0 = 0 then .error .canonSize else .ok s

/-- The switch of `readKind` on the first byte `b`, with `rest` the bytes after it: the kind, the tag size and
the content size. -/
def readTag (b : UInt8) (rest : List UInt8) : Except RlpError (Kind × ℕ × ℕ) :=
  if b < 0x80 then .ok (.byte, 0, 1)
  else if b < 0xB8 then
    -- reject strings that should've been single bytes
    if (b - 0x80).toNat = 1 ∧ rest.length > 0 ∧ rest.headD 0 < 128 then .error .canonSize
    else .ok (.string, 1, (b - 0x80).toNat)
  else if b < 0xC0 then (readSize rest (b - 0xB7).toNat).map fun cs => (.string, (b - 0xB7).toNat + 1, cs)
  else if b < 0xF8 then .ok (.list, 1, (b - 0xC0).toNat)
  else (readSize rest (b - 0xF7).toNat).map fun cs => (.list, (b - 0xF7).toNat + 1, cs)

/-- `readKind`: the kind, the tag size and the content size of the value at the front of `buf`. -/
def readKind (buf : List UInt8) : Except RlpError (Kind × ℕ × ℕ) :=
  match buf with
  | [] => .error .unexpectedEOF
  | b :: rest =>
    match readTag b rest with
    | .error e => .error e
    | .ok (k, tagsize, contentsize) =>
      -- reject values larger than the input slice
      if contentsize > buf.length - tagsize then .error .valueTooLarge else .ok (k, tagsize, contentsize)

/-- `Split`: the kind and the content of the first value, and the bytes after it. -/
def split (b : List UInt8) : Except RlpError (Kind × List UInt8 × List UInt8) :=
  (readKind b).map fun (k, ts, cs) => (k, (b.drop ts).take cs, b.drop (ts + cs))

/-- `SplitString`. -/
def splitString (b : List UInt8) : Except RlpError (List UInt8 × List UInt8) :=
  match split b with
  | .error e => .error e
  | .ok (k, content, rest) => if k = .list then .error .expectedString else .ok (content, rest)

/-- `SplitList`. -/
def splitList (b : List UInt8) : Except RlpError (List UInt8 × List UInt8) :=
  match split b with
  | .error e => .error e
  | .ok (k, content, rest) => if k ≠ .list then .error .expectedList else .ok (content, rest)

/-- `SplitUint64`: an integer of at most eight bytes, with no leading zero byte. -/
def splitUint64 (b : List UInt8) : Except RlpError (UInt64 × List UInt8) :=
  match splitString b with
  | .error e => .error e
  | .ok (content, rest) =>
    if content.length = 0 then .ok (0, rest)
    else if content.length = 1 then
      if content.headD 0 = 0 then .error .canonInt else .ok ((content.headD 0).toUInt64, rest)
    else if content.length > 8 then .error .uintOverflow
    else
      match readSize content content.length with
      | .error _ => .error .canonInt
      | .ok x => .ok (UInt64.ofNat x, rest)

/-! ### What `readKind` accepts -/

theorem map_eq_ok {α β : Type} {f : α → β} {x : Except RlpError α} {b : β} (h : x.map f = .ok b) :
    ∃ a, x = .ok a ∧ f a = b := by
  cases x with
  | error e => cases h
  | ok a => exact ⟨a, rfl, Except.ok.inj h⟩

/-- A size `readSize` accepts: one to eight bytes, there in the input, big-endian, at least 56, with no leading
zero byte. -/
theorem readSize_eq_ok {b : List UInt8} {slen s : ℕ} (h : readSize b slen = .ok s) :
    slen ≤ b.length ∧ 1 ≤ slen ∧ slen ≤ 8 ∧ s = BigEndian.toNat (b.take slen) ∧ 56 ≤ s ∧ b.headD 0 ≠ 0 := by
  unfold readSize at h
  dsimp only at h
  split_ifs at h with h1 h2 h3
  · cases Except.ok.inj h
    exact ⟨Nat.le_of_not_lt h1, h2.1, h2.2, rfl, by omega, by tauto⟩
  · -- no size of that many bytes: the zero it stands for is below 56
    rename_i hn
    exact absurd (Or.inl (by decide)) hn

/-- The bytes `putint` writes for a size from 56 on are the size `readSize` reads. -/
theorem readSize_putint {n : ℕ} (h56 : 56 ≤ n) (h64 : n < 2 ^ 64) (rest : List UInt8) :
    readSize (putint (UInt64.ofNat n) ++ rest) (putint (UInt64.ofNat n)).length = .ok n := by
  have hne : UInt64.ofNat n ≠ 0 := ofNat_ne_zero (by omega) h64
  have hlen : 1 ≤ (putint (UInt64.ofNat n)).length ∧ (putint (UInt64.ofNat n)).length ≤ 8 := by
    rw [length_putint]
    exact ⟨putintSize_pos _, putintSize_le _⟩
  have hhead : (putint (UInt64.ofNat n) ++ rest).headD 0 ≠ 0 := by
    obtain ⟨x, xs, hx⟩ : ∃ x xs, putint (UInt64.ofNat n) = x :: xs := by
      cases hp : putint (UInt64.ofNat n) with
      | nil => rw [hp] at hlen; exact absurd hlen.1 (by decide)
      | cons x xs => exact ⟨x, xs, rfl⟩
    have := headD_putint_ne_zero hne
    rw [hx] at this ⊢
    exact this
  have hin : ¬ (putint (UInt64.ofNat n)).length > (putint (UInt64.ofNat n) ++ rest).length := by
    rw [List.length_append]
    omega
  have hval : BigEndian.toNat ((putint (UInt64.ofNat n) ++ rest).take (putint (UInt64.ofNat n)).length) = n := by
    rw [List.take_left, toNat_putint, toNat_ofNat_of_lt h64]
  have hcond : ¬ (n < 56 ∨ (putint (UInt64.ofNat n) ++ rest).headD 0 = 0) := fun h => h.elim (by omega) hhead
  unfold readSize
  dsimp only
  rw [if_neg hin, if_pos hlen, hval, if_neg hcond]

/-- A byte at or above a constant, less the constant, as a number. -/
theorem toNat_sub_tag {x : UInt8} {c : ℕ} (hc : c < 256) (h : c ≤ x.toNat) :
    (x - OfNat.ofNat c).toNat = x.toNat - c := by
  have hc' : (OfNat.ofNat c : UInt8).toNat = c := by
    show (UInt8.ofNat c).toNat = c
    rw [UInt8.toNat_ofNat', Nat.mod_eq_of_lt (show c < 2 ^ 8 by omega)]
  rw [UInt8.toNat_sub_of_le _ _ (UInt8.le_iff_toNat_le.2 (by rw [hc']; exact h)), hc']

/-- `readTag` with the byte compared and reduced as a number. -/
theorem readTag_eq (x : UInt8) (rest : List UInt8) : readTag x rest =
    if x.toNat < 0x80 then .ok (.byte, 0, 1)
    else if x.toNat < 0xB8 then
      if x.toNat - 0x80 = 1 ∧ rest.length > 0 ∧ rest.headD 0 < 128 then .error .canonSize
      else .ok (.string, 1, x.toNat - 0x80)
    else if x.toNat < 0xC0 then (readSize rest (x.toNat - 0xB7)).map fun cs => (.string, x.toNat - 0xB7 + 1, cs)
    else if x.toNat < 0xF8 then .ok (.list, 1, x.toNat - 0xC0)
    else (readSize rest (x.toNat - 0xF7)).map fun cs => (.list, x.toNat - 0xF7 + 1, cs) := by
  unfold readTag
  simp only [UInt8.lt_iff_toNat_lt, UInt8.reduceToNat]
  -- the branches in order; in each the byte is above the constant it loses
  by_cases h1 : x.toNat < 128
  · rw [if_pos h1, if_pos h1]
  rw [if_neg h1, if_neg h1]
  by_cases h2 : x.toNat < 184
  · rw [if_pos h2, if_pos h2, toNat_sub_tag (by decide) (show 128 ≤ x.toNat by omega)]
  rw [if_neg h2, if_neg h2]
  by_cases h3 : x.toNat < 192
  · rw [if_pos h3, if_pos h3, toNat_sub_tag (by decide) (show 183 ≤ x.toNat by omega)]
  rw [if_neg h3, if_neg h3]
  by_cases h4 : x.toNat < 248
  · rw [if_pos h4, if_pos h4, toNat_sub_tag (by decide) (show 192 ≤ x.toNat by omega)]
  rw [if_neg h4, if_neg h4, toNat_sub_tag (by decide) (show 247 ≤ x.toNat by omega)]



/-! ### Headers -/

/-- The tag of a string or list header with the size in it. -/
def Kind.smallTag : Kind → UInt8
  | .byte => 0
  | .string => 0x80
  | .list => 0xC0

/-- The tag below those of a string or list header with the length of the size in it. -/
def Kind.largeTag : Kind → UInt8
  | .byte => 0
  | .string => 0xB7
  | .list => 0xF7

/-- The header the encoder writes for a value of kind `k` and content `c`; a single byte has none. -/
def header (k : Kind) (c : List UInt8) : List UInt8 :=
  if k = .byte then [] else puthead k.smallTag k.largeTag (UInt64.ofNat c.length)

/-- The contents a kind allows: a single byte below `0x80` is a `Byte`, and no `String`. -/
def Canonical : Kind → List UInt8 → Prop
  | .byte, c => ∃ x, c = [x] ∧ x < 0x80
  | .string, c => ¬ ∃ x, c = [x] ∧ x < 0x80
  | .list, _ => True

theorem toNat_tag_add {t : UInt8} {n : ℕ} (h : t.toNat + n < 256) : (t + UInt8.ofNat n).toNat = t.toNat + n := by
  rw [UInt8.toNat_add, UInt8.toNat_ofNat', Nat.mod_eq_of_lt (show n < 2 ^ 8 by omega),
    Nat.mod_eq_of_lt (show t.toNat + n < 2 ^ 8 by omega)]

/-- A byte at or above a tag is the tag plus the difference. -/
theorem eq_tag_add {x t : UInt8} {n : ℕ} (h : t.toNat + n = x.toNat) : x = t + UInt8.ofNat n :=
  UInt8.toNat_inj.1 (by rw [toNat_tag_add (by have := x.toNat_lt; omega), h])

theorem header_of_lt {k : Kind} (hk : k ≠ .byte) {c : List UInt8} (hc : c.length < 56) :
    header k c = [k.smallTag + UInt8.ofNat c.length] := by
  rw [header, if_neg hk, puthead, toNat_ofNat_of_lt (by omega), if_pos hc, toUInt8_ofNat]

theorem header_of_le {k : Kind} (hk : k ≠ .byte) {c : List UInt8} (hc : 56 ≤ c.length) (h64 : c.length < 2 ^ 64) :
    header k c = (k.largeTag + UInt8.ofNat (putint (UInt64.ofNat c.length)).length) ::
      putint (UInt64.ofNat c.length) := by
  rw [header, if_neg hk, puthead, toNat_ofNat_of_lt h64, if_neg (by omega)]

/-- Everything `readTag` accepts: a byte below `0x80`; a tag with the size in it; or a tag with the length of the
size in it, then the size, as `readSize` reads it. -/
theorem readTag_eq_ok {x : UInt8} {rest : List UInt8} {k : Kind} {ts cs : ℕ} (h : readTag x rest = .ok (k, ts, cs)) :
    (k = .byte ∧ x < 0x80 ∧ ts = 0 ∧ cs = 1) ∨
    (k ≠ .byte ∧ x = k.smallTag + UInt8.ofNat cs ∧ cs < 56 ∧ ts = 1 ∧
      (k = .string → ¬(cs = 1 ∧ rest.length > 0 ∧ rest.headD 0 < 128))) ∨
    (k ≠ .byte ∧ ∃ L, 1 ≤ L ∧ L ≤ 8 ∧ x = k.largeTag + UInt8.ofNat L ∧ ts = L + 1 ∧ readSize rest L = .ok cs) := by
  have hx := x.toNat_lt
  rw [readTag_eq] at h
  split_ifs at h with h1 h2 h3 h4 h5
  · cases Except.ok.inj h
    exact .inl ⟨rfl, UInt8.lt_iff_toNat_lt.2 h1, rfl, rfl⟩
  · cases Except.ok.inj h
    exact .inr (.inl ⟨by decide, eq_tag_add (t := 0x80) (by simp only [UInt8.reduceToNat]; omega), by omega,
      rfl, fun _ => h3⟩)
  · obtain ⟨cs', hcs, he⟩ := map_eq_ok h
    cases he
    exact .inr (.inr ⟨by decide, x.toNat - 0xB7, by omega, by omega,
      eq_tag_add (t := 0xB7) (by simp only [UInt8.reduceToNat]; omega), rfl, hcs⟩)
  · cases Except.ok.inj h
    exact .inr (.inl ⟨by decide, eq_tag_add (t := 0xC0) (by simp only [UInt8.reduceToNat]; omega), by omega,
      rfl, fun h => by cases h⟩)
  · obtain ⟨cs', hcs, he⟩ := map_eq_ok h
    cases he
    exact .inr (.inr ⟨by decide, x.toNat - 0xF7, by omega, by omega,
      eq_tag_add (t := 0xF7) (by simp only [UInt8.reduceToNat]; omega), rfl, hcs⟩)

/-- What `readKind` accepts: what `readTag` accepts of the first byte, with the content in the input. -/
theorem readKind_eq_ok {b : List UInt8} {k : Kind} {ts cs : ℕ} (h : readKind b = .ok (k, ts, cs)) :
    ∃ x rest, b = x :: rest ∧ readTag x rest = .ok (k, ts, cs) ∧ cs ≤ b.length - ts := by
  cases b with
  | nil => cases h
  | cons x rest =>
    rcases htag : readTag x rest with e | ⟨k', ts', cs'⟩
    · simp only [readKind, htag] at h
      cases h
    · simp only [readKind, htag] at h
      split_ifs at h with hcs
      cases Except.ok.inj h
      exact ⟨x, rest, rfl, htag, Nat.le_of_not_lt hcs⟩

/-- A value `readKind` accepts is not empty. -/
theorem readKind_pos {b : List UInt8} {k : Kind} {ts cs : ℕ} (h : readKind b = .ok (k, ts, cs)) : 0 < ts + cs := by
  obtain ⟨x, rest, -, htag, -⟩ := readKind_eq_ok h
  rcases readTag_eq_ok htag with ⟨-, -, -, rfl⟩ | ⟨-, -, -, rfl, -⟩ | ⟨-, L, -, -, -, rfl, -⟩ <;> omega

/-- The loop of `CountValues`: one value counted per header read. -/
def countValuesLoop (b : List UInt8) (i : ℕ) : Except RlpError ℕ :=
  if b.length > 0 then
    match hk : readKind b with
    | .error e => .error e
    | .ok (_, tagsize, size) => countValuesLoop (b.drop (tagsize + size)) (i + 1)
  else .ok i
termination_by b.length
decreasing_by
  have := readKind_pos hk
  rw [List.length_drop]
  omega

/-- `CountValues`: the number of values encoded one after another in `b`. -/
def countValues (b : List UInt8) : Except RlpError ℕ := countValuesLoop b 0

/-! ### `Split` accepts exactly the encoder's headers -/

theorem headD_take {l : List UInt8} {n : ℕ} (hn : 1 ≤ n) : (l.take n).headD 0 = l.headD 0 := by
  cases l with
  | nil => rw [List.take_nil]
  | cons x xs =>
    obtain ⟨m, rfl⟩ : ∃ m, n = m + 1 := ⟨n - 1, by omega⟩
    rfl

/-- Eight bytes or fewer spell a `uint64`. -/
theorem toNat_lt_of_length_le {c : List UInt8} (h : c.length ≤ 8) : BigEndian.toNat c < 2 ^ 64 := calc
  _ < 256 ^ c.length := BigEndian.toNat_lt c
  _ ≤ 256 ^ 8 := Nat.pow_le_pow_right (by decide) h
  _ = 2 ^ 64 := by decide

/-- `readKind` accepts only the headers the encoder writes, before contents their kind allows. -/
theorem readKind_canonical {b : List UInt8} {k : Kind} {ts cs : ℕ} (h : readKind b = .ok (k, ts, cs)) :
    ts + cs ≤ b.length ∧ Canonical k ((b.drop ts).take cs) ∧ b.take ts = header k ((b.drop ts).take cs) := by
  obtain ⟨x, rest, rfl, htag, hcs⟩ := readKind_eq_ok h
  rw [List.length_cons] at hcs
  rcases readTag_eq_ok htag with ⟨rfl, hx, rfl, rfl⟩ | ⟨hk, rfl, hlt, rfl, hstr⟩ |
    ⟨hk, L, hL1, hL8, rfl, rfl, hsize⟩
  · -- a single byte is its own encoding
    exact ⟨by simp, ⟨x, rfl, hx⟩, rfl⟩
  · -- the size in the tag
    have hlen : (rest.take cs).length = cs := by rw [List.length_take]; omega
    rw [List.drop_one, List.tail_cons]
    refine ⟨by rw [List.length_cons]; omega, ?_, ?_⟩
    · cases k with
      | byte => exact absurd rfl hk
      | string =>
        rintro ⟨y, hy, hy128⟩
        have h1 : cs = 1 := by rw [← hlen, hy]; rfl
        subst h1
        cases rest with
        | nil => cases hy
        | cons r rs =>
          cases List.cons.inj hy |>.1
          exact hstr rfl ⟨rfl, by simp, hy128⟩
      | list => trivial
    · rw [header_of_lt hk (by rw [hlen]; exact hlt), hlen]
      rfl
  · -- the length of the size in the tag, then the size
    obtain ⟨hLr, -, -, hs, h56, hhead⟩ := readSize_eq_ok hsize
    have hlen : ((rest.drop L).take cs).length = cs := by
      rw [List.length_take, List.length_drop]; omega
    have htake : (rest.take L).length = L := by rw [List.length_take]; omega
    have h64 : cs < 2 ^ 64 := by
      rw [hs]
      exact toNat_lt_of_length_le (by rw [htake]; exact hL8)
    have hput : putint (UInt64.ofNat cs) = rest.take L := by
      rw [hs]
      exact putint_toNat (by omega) (by omega) (by rw [headD_take hL1]; exact hhead)
    rw [List.drop_succ_cons]
    refine ⟨by rw [List.length_cons]; omega, ?_, ?_⟩
    · cases k with
      | byte => exact absurd rfl hk
      | string =>
        rintro ⟨y, hy, -⟩
        have := congrArg List.length hy
        rw [hlen, List.length_singleton] at this
        omega
      | list => trivial
    · rw [header_of_le hk (by rw [hlen]; exact h56) (by rw [hlen]; exact h64), hlen, hput, htake]
      rfl

theorem readKind_cons_of_readTag {x : UInt8} {rest : List UInt8} {k : Kind} {ts cs : ℕ}
    (h : readTag x rest = .ok (k, ts, cs)) (hcs : ts + cs ≤ rest.length + 1) :
    readKind (x :: rest) = .ok (k, ts, cs) := by
  simp only [readKind, h]
  rw [if_neg (by rw [List.length_cons]; omega)]

theorem readTag_short {k : Kind} (hk : k ≠ .byte) {n : ℕ} (hn : n < 56) (rest : List UInt8)
    (hstr : k = .string → ¬(n = 1 ∧ rest.length > 0 ∧ rest.headD 0 < 128)) :
    readTag (k.smallTag + UInt8.ofNat n) rest = .ok (k, 1, n) := by
  cases k with
  | byte => exact absurd rfl hk
  | string =>
    have hx : (Kind.string.smallTag + UInt8.ofNat n).toNat = 128 + n := toNat_tag_add (by show 128 + n < 256; omega)
    rw [readTag_eq, hx, if_neg (by omega), if_pos (by omega), Nat.add_sub_cancel_left, if_neg (hstr rfl)]
  | list =>
    have hx : (Kind.list.smallTag + UInt8.ofNat n).toNat = 192 + n := toNat_tag_add (by show 192 + n < 256; omega)
    rw [readTag_eq, hx, if_neg (by omega), if_neg (by omega), if_neg (by omega), if_pos (by omega),
      Nat.add_sub_cancel_left]

theorem readTag_long {k : Kind} (hk : k ≠ .byte) {L : ℕ} (hL1 : 1 ≤ L) (hL8 : L ≤ 8) {rest : List UInt8} {s : ℕ}
    (hs : readSize rest L = .ok s) : readTag (k.largeTag + UInt8.ofNat L) rest = .ok (k, L + 1, s) := by
  cases k with
  | byte => exact absurd rfl hk
  | string =>
    have hx : (Kind.string.largeTag + UInt8.ofNat L).toNat = 183 + L := toNat_tag_add (by show 183 + L < 256; omega)
    rw [readTag_eq, hx, if_neg (by omega), if_neg (by omega), if_pos (by omega), Nat.add_sub_cancel_left, hs]
    rfl
  | list =>
    have hx : (Kind.list.largeTag + UInt8.ofNat L).toNat = 247 + L := toNat_tag_add (by show 247 + L < 256; omega)
    rw [readTag_eq, hx, if_neg (by omega), if_neg (by omega), if_neg (by omega), if_neg (by omega),
      Nat.add_sub_cancel_left, hs]
    rfl

/-- `readKind` reads back the header the encoder writes for every content its kind allows. -/
theorem readKind_header {k : Kind} {c : List UInt8} (hc : Canonical k c) (h64 : c.length < 2 ^ 64)
    (rest : List UInt8) : readKind (header k c ++ c ++ rest) = .ok (k, (header k c).length, c.length) := by
  by_cases hk : k = .byte
  · subst hk
    obtain ⟨x, rfl, hx⟩ := hc
    have htag : readTag x rest = .ok (.byte, 0, 1) := by
      rw [readTag_eq, if_pos (show x.toNat < 128 from UInt8.lt_iff_toNat_lt.1 hx)]
    show readKind (x :: rest) = .ok (.byte, 0, 1)
    exact readKind_cons_of_readTag htag (by omega)
  by_cases hlt : c.length < 56
  · -- the size in the tag
    rw [header_of_lt hk hlt]
    have hstr : k = .string → ¬(c.length = 1 ∧ (c ++ rest).length > 0 ∧ (c ++ rest).headD 0 < 128) := by
      rintro rfl ⟨h1, -, h128⟩
      obtain ⟨y, rfl⟩ := List.length_eq_one_iff.1 h1
      exact hc ⟨y, rfl, h128⟩
    rw [List.append_assoc, List.singleton_append]
    exact readKind_cons_of_readTag (readTag_short hk hlt (c ++ rest) hstr)
      (by simp only [List.length_append, List.length_singleton]; omega)
  · -- the length of the size in the tag, then the size
    rw [header_of_le hk (by omega) h64]
    have hL1 := putintSize_pos (UInt64.ofNat c.length)
    have hL8 := putintSize_le (UInt64.ofNat c.length)
    rw [← length_putint] at hL1 hL8
    have hs := readSize_putint (by omega) h64 (c ++ rest)
    simp only [List.cons_append, List.append_assoc]
    exact readKind_cons_of_readTag (readTag_long hk hL1 hL8 hs)
      (by simp only [List.length_append, List.length_cons]; omega)

/-- What `Split` accepts is a header the encoder writes, of a content its kind allows. -/
theorem split_canonical {b : List UInt8} {k : Kind} {c rest : List UInt8} (h : split b = .ok (k, c, rest)) :
    Canonical k c ∧ b = header k c ++ c ++ rest := by
  obtain ⟨⟨k', ts, cs⟩, hk, he⟩ := map_eq_ok h
  simp only [Prod.mk.injEq] at he
  obtain ⟨rfl, rfl, rfl⟩ := he
  obtain ⟨-, hcanon, hhead⟩ := readKind_canonical hk
  refine ⟨hcanon, ?_⟩
  -- the header, the content and the rest, one after another
  calc b = b.take ts ++ b.drop ts := (List.take_append_drop _ _).symm
    _ = b.take ts ++ ((b.drop ts).take cs ++ (b.drop ts).drop cs) := by rw [List.take_append_drop cs (b.drop ts)]
    _ = _ := by rw [List.drop_drop, hhead, List.append_assoc]

/-- `Split` cuts off the header the encoder writes and the content after it. -/
theorem split_header {k : Kind} {c : List UInt8} (hc : Canonical k c) (h64 : c.length < 2 ^ 64) (rest : List UInt8) :
    split (header k c ++ c ++ rest) = .ok (k, c, rest) := by
  have hd : (header k c ++ c ++ rest).drop ((header k c).length + c.length) = rest := by
    rw [← List.length_append, List.drop_left]
  have ht : ((header k c ++ c ++ rest).drop (header k c).length).take c.length = c := by
    rw [List.append_assoc, List.drop_left, List.take_left]
  unfold split
  rw [readKind_header hc h64 rest]
  show Except.ok (k, ((header k c ++ c ++ rest).drop (header k c).length).take c.length,
    (header k c ++ c ++ rest).drop ((header k c).length + c.length)) = _
  rw [ht, hd]

/-- `Split` cuts a value off the front of every slice shorter than `2 ^ 64` exactly when the slice starts with the
header the encoder writes for the value's kind and content, and the content is one the kind allows: it accepts no
other header, and reads back every one it writes. -/
theorem split_eq_ok_iff {b : List UInt8} (hb : b.length < 2 ^ 64) {k : Kind} {c rest : List UInt8} :
    split b = .ok (k, c, rest) ↔ Canonical k c ∧ b = header k c ++ c ++ rest := by
  constructor
  · exact split_canonical
  · rintro ⟨hc, rfl⟩
    exact split_header hc (by simp only [List.length_append] at hb; omega) rest

theorem split_eq_ok_iff_twoBytes : ([0x82, 1, 2] : List UInt8).length < 2 ^ 64 ∧
    (split [0x82, 1, 2] = .ok (.string, [1, 2], []) ↔
      Canonical .string [1, 2] ∧ ([0x82, 1, 2] : List UInt8) = header .string [1, 2] ++ [1, 2] ++ []) :=
  ⟨by decide, split_eq_ok_iff (by decide)⟩

/-! ### Values -/

/-- The kind `Split` reads for a value. -/
def Value.kind : Value → Kind
  | .bytes b => if b.length = 1 ∧ b.headD 0 ≤ 0x7F then .byte else .string
  | .list _ => .list

/-- The content `Split` reads for a value: a string's bytes, a list's payload. -/
def Value.content : Value → List UInt8
  | .bytes b => b
  | .list vs => Value.encodeAll vs

theorem encode_eq_header (v : Value) : v.encode = header v.kind v.content ++ v.content := by
  cases v with
  | bytes b =>
    rw [Value.encode, Value.kind, Value.content]
    split_ifs with hb
    · rfl
    · rfl
  | list vs => rfl

theorem canonical_kind (v : Value) : Canonical v.kind v.content := by
  cases v with
  | bytes b =>
    rw [Value.kind, Value.content]
    split_ifs with hb
    · obtain ⟨x, rfl⟩ := List.length_eq_one_iff.1 hb.1
      exact ⟨x, rfl, UInt8.lt_iff_toNat_lt.2 (by have := UInt8.le_iff_toNat_le.1 hb.2; simp at this ⊢; omega)⟩
    · rintro ⟨x, rfl, hx⟩
      exact hb ⟨rfl, UInt8.le_iff_toNat_le.2 (by have := UInt8.lt_iff_toNat_lt.1 hx; simp at this ⊢; omega)⟩
  | list vs => trivial

theorem length_header_pos {k : Kind} (hk : k ≠ .byte) (c : List UInt8) : 0 < (header k c).length := by
  rw [header, if_neg hk, length_puthead, headsize]
  split_ifs <;> omega

theorem length_encode_pos (v : Value) : 0 < v.encode.length := by
  rw [encode_eq_header, List.length_append]
  by_cases hk : v.kind = .byte
  · have hc := canonical_kind v
    rw [hk] at hc
    obtain ⟨x, hx, -⟩ := hc
    rw [hx, List.length_singleton]
    omega
  · have := length_header_pos hk v.content
    omega

theorem length_content_le (v : Value) : v.content.length ≤ v.encode.length := by
  rw [encode_eq_header, List.length_append]
  omega

/-- `CountValues` counts the values of a list's payload. -/
theorem countValuesLoop_encodeAll : ∀ (vs : List Value) (i : ℕ), (Value.encodeAll vs).length < 2 ^ 64 →
    countValuesLoop (Value.encodeAll vs) i = .ok (i + vs.length)
  | [], i, _ => by
    rw [countValuesLoop]
    rfl
  | v :: vs, i, h => by
    obtain ⟨hv, hvs⟩ := length_encode_lt_of_cons h
    have hk := readKind_header (canonical_kind v) (Nat.lt_of_le_of_lt (length_content_le v) hv)
      (Value.encodeAll vs)
    rw [← encode_eq_header] at hk
    have hpos : (v.encode ++ Value.encodeAll vs).length > 0 := by
      have := readKind_pos hk
      have := length_content_le v
      rw [List.length_append]
      rw [encode_eq_header, List.length_append]
      omega
    rw [Value.encodeAll, countValuesLoop, if_pos hpos]
    split
    · rename_i he
      rw [hk] at he
      cases he
    · rename_i ts cs he
      rw [hk] at he
      cases he
      -- the next value starts after this one's header and content
      have hdrop : (v.encode ++ Value.encodeAll vs).drop ((header v.kind v.content).length + v.content.length) =
          Value.encodeAll vs := by
        rw [← List.length_append, ← encode_eq_header, List.drop_left]
      rw [hdrop, countValuesLoop_encodeAll vs (i + 1) hvs, List.length_cons, Nat.add_right_comm,
        Nat.add_assoc]

theorem countValues_encodeAll (vs : List Value) (h : (Value.encodeAll vs).length < 2 ^ 64) :
    countValues (Value.encodeAll vs) = .ok vs.length := by
  rw [countValues, countValuesLoop_encodeAll vs 0 h, Nat.zero_add]

theorem countValues_encodeAll_nestedValue : (Value.encodeAll [nestedValue, .bytes [1], .list []]).length < 2 ^ 64 ∧
    countValues (Value.encodeAll [nestedValue, .bytes [1], .list []]) = .ok [nestedValue, .bytes [1], .list []].length :=
  ⟨by decide, countValues_encodeAll _ (by decide)⟩

/-! ### Integers -/

theorem splitString_of_split {b c rest : List UInt8} {k : Kind} (h : split b = .ok (k, c, rest)) (hk : k ≠ .list) :
    splitString b = .ok (c, rest) := by
  rw [splitString, h]
  exact if_neg hk

theorem splitString_eq_ok {b c rest : List UInt8} (h : splitString b = .ok (c, rest)) :
    ∃ k, k ≠ .list ∧ split b = .ok (k, c, rest) := by
  unfold splitString at h
  rcases hs : split b with e | ⟨k, c', rest'⟩
  · rw [hs] at h; cases h
  · rw [hs] at h
    dsimp only at h
    split_ifs at h with hk
    cases h
    exact ⟨k, hk, rfl⟩

theorem appendUint64_nil (x : UInt64) : appendUint64 [] x =
    if x = 0 then [0x80] else if x < 128 then [x.toUInt8] else (0x80 + UInt8.ofNat (putint x).length) :: putint x := by
  rw [appendUint64_eq, List.nil_append]

theorem putint_of_lt {x : UInt64} (h : x.toNat < 256) : putint x = [x.toUInt8] := by
  unfold putint putintSize
  rw [if_pos (show x.toNat < 2 ^ 8 from h)]
  simp [BigEndian.ofNat]

/-- The integer part of `SplitUint64`, on the content of a string that `Split` read. -/
theorem splitUint64_of_splitString {b c rest : List UInt8} (h : splitString b = .ok (c, rest)) :
    splitUint64 b =
      if c.length = 0 then .ok (0, rest)
      else if c.length = 1 then if c.headD 0 = 0 then .error .canonInt else .ok ((c.headD 0).toUInt64, rest)
      else if c.length > 8 then .error .uintOverflow
      else match readSize c c.length with
        | .error _ => .error .canonInt
        | .ok x => .ok (UInt64.ofNat x, rest) := by
  rw [splitUint64, h]

/-- A one-byte `putint` holds an integer below `256`. -/
theorem lt_256_of_length_putint {x : UInt64} (h : (putint x).length = 1) : x.toNat < 256 := by
  have := lt_pow_putintSize x
  rwa [← length_putint, h] at this

/-- An integer below `256` is the byte it converts to. -/
theorem toUInt64_toUInt8 {x : UInt64} (h : x.toNat < 256) : x.toUInt8.toUInt64 = x := by
  apply UInt64.toNat_inj.1
  simp
  omega

/-- Two bytes or more with a leading one that is not zero spell at least `256`. -/
theorem le_toNat_of_headD_ne_zero {c : List UInt8} (h2 : 2 ≤ c.length) (hh : c.headD 0 ≠ 0) :
    256 ≤ BigEndian.toNat c := by
  obtain ⟨z, zs, rfl⟩ : ∃ z zs, c = z :: zs := by
    cases c with
    | nil => exact absurd h2 (by simp)
    | cons z zs => exact ⟨z, zs, rfl⟩
  have := BigEndian.pow_le_toNat_cons (x := z) zs hh
  have : 256 ^ 1 ≤ 256 ^ zs.length := Nat.pow_le_pow_right (by decide) (by simp at h2; omega)
  omega

/-- What `SplitUint64` accepts is what `AppendUint64` writes: the canonical encoding of the integer. -/
theorem eq_appendUint64_of_splitUint64 {b rest : List UInt8} {x : UInt64} (h : splitUint64 b = .ok (x, rest)) :
    b = appendUint64 [] x ++ rest := by
  rcases hs : splitString b with e | ⟨c, rest'⟩
  · rw [splitUint64, hs] at h; cases h
  obtain ⟨k, hk, hsplit⟩ := splitString_eq_ok hs
  -- what `Split` accepted is the encoder's header of a canonical content
  obtain ⟨hcanon, rfl⟩ := split_canonical hsplit
  rw [splitUint64_of_splitString hs] at h
  rw [appendUint64_nil]
  split_ifs at h with h0 h1 hy h8
  · -- the empty string is zero
    cases h
    obtain rfl := List.length_eq_zero_iff.1 h0
    cases k with
    | byte => obtain ⟨y, hy, -⟩ := hcanon; cases hy
    | string => rw [if_pos rfl, header_of_lt (by decide) (by decide)]; rfl
    | list => exact absurd rfl hk
  · -- one byte: its own encoding below `0x80`, after `0x81` from there
    cases h
    obtain ⟨y, rfl⟩ := List.length_eq_one_iff.1 h1
    have hy0 : y.toUInt64 ≠ 0 := fun h0 => hy (by simpa using congrArg UInt64.toUInt8 h0)
    rw [if_neg (by simpa using hy0)]
    cases k with
    | byte =>
      obtain ⟨z, hz, hz128⟩ := hcanon
      cases List.cons.inj hz |>.1
      rw [if_pos (UInt64.lt_iff_toNat_lt.2 (by simpa [UInt8.lt_iff_toNat_lt] using hz128))]
      simp [header]
    | string =>
      have hy128 : ¬ y < 0x80 := fun hlt => hcanon ⟨y, rfl, hlt⟩
      have hyn : 128 ≤ y.toNat := by simp only [UInt8.lt_iff_toNat_lt, UInt8.reduceToNat] at hy128; omega
      have hy256 := y.toNat_lt
      rw [if_neg (by simp only [UInt64.lt_iff_toNat_lt]; simp; omega), putint_of_lt (by simp; omega),
        header_of_lt (by decide) (by simp)]
      simp [Kind.smallTag]
    | list => exact absurd rfl hk
  · -- two to eight bytes: a size as `readSize` reads it, at least `256`
    rcases hr : readSize c c.length with e | s
    · rw [hr] at h; cases h
    rw [hr] at h
    cases h
    obtain ⟨-, hL1, -, hs, -, hhead⟩ := readSize_eq_ok hr
    rw [List.take_length] at hs
    subst hs
    have hx : (UInt64.ofNat (BigEndian.toNat c)).toNat = BigEndian.toNat c :=
      toNat_ofNat_of_lt (toNat_lt_of_length_le (by omega))
    have hge := le_toNat_of_headD_ne_zero (by omega) hhead
    rw [if_neg (fun h0 => by rw [h0] at hx; simp at hx; omega),
      if_neg (by rw [UInt64.lt_iff_toNat_lt, hx]; simp; omega), putint_toNat hL1 (by omega) hhead]
    cases k with
    | byte => obtain ⟨y, rfl, -⟩ := hcanon; exact absurd h1 (by simp)
    | string => rw [header_of_lt (by decide) (by omega)]; rfl
    | list => exact absurd rfl hk

/-- `SplitUint64` reads the integer back from what `AppendUint64` writes, whatever follows. -/
theorem splitUint64_appendUint64 (x : UInt64) (rest : List UInt8) :
    splitUint64 (appendUint64 [] x ++ rest) = .ok (x, rest) := by
  rw [appendUint64_nil]
  split_ifs with h0 h128
  · -- zero: the empty string
    subst h0
    have hs : split ([0x80] ++ rest) = .ok (.string, [], rest) :=
      split_header (k := .string) (c := []) (fun ⟨_, h, _⟩ => by cases h) (by decide) rest
    rw [splitUint64_of_splitString (splitString_of_split hs (by decide))]
    rfl
  · -- below `0x80`: the byte itself
    have hx8 : x.toNat < 128 := UInt64.lt_iff_toNat_lt.1 h128
    have hbyte : x.toUInt8 < 0x80 := UInt8.lt_iff_toNat_lt.2 (by simp; omega)
    have hs : split ([x.toUInt8] ++ rest) = .ok (.byte, [x.toUInt8], rest) :=
      split_header (k := .byte) (c := [x.toUInt8]) ⟨_, rfl, hbyte⟩ (by simp) rest
    rw [splitUint64_of_splitString (splitString_of_split hs (by decide))]
    have hne : x.toUInt8 ≠ 0 := fun h => h0 (UInt64.toNat_inj.1 (by
      have := congrArg UInt8.toNat h; simp at this; simp; omega))
    rw [if_neg (by simp), if_pos (by simp), if_neg (by simpa using hne), List.headD_cons,
      toUInt64_toUInt8 (by omega)]
  · -- from `0x80` on: a string of the bytes `putint` writes
    have hx128 : 128 ≤ x.toNat := by have := UInt64.lt_iff_toNat_lt.not.1 h128; simp at this; omega
    have hL1 := putintSize_pos x
    have hL8 := putintSize_le x
    rw [← length_putint] at hL1 hL8
    -- not a single byte below `0x80`, which would be a `Byte`
    have hcanon : Canonical .string (putint x) := by
      rintro ⟨y, hy, hy128⟩
      have h256 := lt_256_of_length_putint (by rw [hy]; rfl)
      rw [putint_of_lt h256] at hy
      cases List.cons.inj hy |>.1
      have := UInt8.lt_iff_toNat_lt.1 hy128
      simp at this
      omega
    have hs : split ((0x80 + UInt8.ofNat (putint x).length) :: putint x ++ rest) =
        .ok (.string, putint x, rest) := by
      have := split_header hcanon (by omega) rest
      rwa [header_of_lt (by decide) (by omega)] at this
    rw [splitUint64_of_splitString (splitString_of_split hs (by decide)), if_neg (by omega)]
    by_cases hone : (putint x).length = 1
    · -- one byte from `0x80` to `0xFF`
      have h256 := lt_256_of_length_putint hone
      rw [if_pos hone, putint_of_lt h256]
      rw [if_neg (by
        simp only [List.headD_cons]
        intro h
        have := congrArg UInt8.toNat h
        simp at this
        omega), List.headD_cons, toUInt64_toUInt8 h256]
    · -- two to eight bytes: the size `readSize` reads is the integer
      have hrs := readSize_putint (n := x.toNat) (by omega) x.toNat_lt []
      rw [UInt64.ofNat_toNat, List.append_nil] at hrs
      rw [if_neg hone, if_neg (by omega), hrs]
      dsimp only
      rw [UInt64.ofNat_toNat]

/-- `SplitUint64` reads an integer from exactly the encodings `AppendUint64` writes, whatever follows them. -/
theorem splitUint64_eq_ok_iff {b rest : List UInt8} {x : UInt64} :
    splitUint64 b = .ok (x, rest) ↔ b = appendUint64 [] x ++ rest := by
  constructor
  · exact eq_appendUint64_of_splitUint64
  · rintro rfl
    exact splitUint64_appendUint64 x rest

end AmazeChain.Rlp
