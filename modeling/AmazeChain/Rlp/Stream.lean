import AmazeChain.Rlp.Split

/-!
# The decoding stream

`decode.go` decodes through a `Stream`: the reader, what is left of the input (`remaining`, when the stream is
`limited`), the kind and size of the value ahead once `Kind` has read its header (`kind` is `-1` before), and a
stack of the lists being decoded, each with its size and the position reached in it.  Every read goes through
`willRead`, which rearms `Kind` and refuses a read past the end of the innermost list (`ErrElemTooLarge`) or of the
input (`ErrValueTooLarge`).  At the end of the innermost list `Kind` returns `EOL`; `ListEnd` pops the list and
moves the enclosing one past it.

Below the methods, one lemma for each says what it does: on a stream limited to what is unread, a read of `n`
bytes succeeds exactly when they fit (`Fits`) and leaves the stream `consume n`; `Kind` reads back each header
the encoder writes (`kindAhead_header`, `kindAhead_byte`), and what it accepts is such a header
(`kindAhead_eq_ok`); and no method but `Kind` at the end of a list returns `EOL`.

The reader is a `bytes.Reader` over the input, so the stream is limited to the input's length, and `remaining`
stays the length of what is unread.  The positions of the stack are `uint64` in the source; here they are
numbers, which is the same because a position never passes its list's size.
-/

namespace AmazeChain.Rlp

/-- `listpos`: the position reached in a list being decoded, and the list's size. -/
structure Listpos where
  pos : ℕ
  size : ℕ

/-- `Stream` over a `bytes.Reader`, whose unread bytes are `r`; the auxiliary `uintbuf` is left out. -/
structure Stream where
  r : List UInt8
  /-- number of bytes remaining to be read from `r` -/
  remaining : ℕ
  limited : Bool
  /-- kind of value ahead, `none` for `-1` -/
  kind : Option Kind
  /-- size of value ahead -/
  size : ℕ
  /-- value of single byte in type tag -/
  byteval : UInt8
  /-- error from last `readKind` -/
  kinderr : Option RlpError
  /-- the lists being decoded, the innermost first -/
  stack : List Listpos

namespace Stream

/-- `Reset` to a `bytes.Reader` over `b` with the input limit `len(b)`. -/
def reset (b : List UInt8) : Stream := ⟨b, b.length, true, none, 0, 0, none, []⟩

/-- `willRead`: rearm `Kind`, and check that `n` bytes fit the innermost list and the input. -/
def willRead (s : Stream) (n : ℕ) : Except RlpError Unit × Stream :=
  let s := { s with kind := none }
  -- check list overflow
  let r : Except RlpError Stream :=
    match s.stack with
    | tos :: rest =>
      if n > tos.size - tos.pos then .error .elemTooLarge
      else .ok { s with stack := { tos with pos := tos.pos + n } :: rest }
    | [] => .ok s
  match r with
  | .error e => (.error e, s)
  | .ok s =>
    if s.limited then
      if n > s.remaining then (.error .valueTooLarge, s) else (.ok (), { s with remaining := s.remaining - n })
    else (.ok (), s)

/-- `readByte`. -/
def readByte (s : Stream) : Except RlpError UInt8 × Stream :=
  match s.willRead 1 with
  | (.error e, s) => (.error e, s)
  | (.ok (), s) =>
    match s.r with
    | b :: rest => (.ok b, { s with r := rest })
    | [] => (.error .unexpectedEOF, s)

/-- `readFull` of `n` bytes. -/
def readFull (s : Stream) (n : ℕ) : Except RlpError (List UInt8) × Stream :=
  match s.willRead n with
  | (.error e, s) => (.error e, s)
  | (.ok (), s) =>
    if n ≤ s.r.length then (.ok (s.r.take n), { s with r := s.r.drop n })
    else (.error .unexpectedEOF, { s with r := [] })

/-- `readUint` of `size` bytes: a leading zero byte is not canonical for two bytes or more.  The callers pass
sizes up to eight. -/
def readUint (s : Stream) (size : ℕ) : Except RlpError ℕ × Stream :=
  if size = 0 then (.ok 0, { s with kind := none })
  else if size = 1 then
    match s.readByte with
    | (.ok b, s) => (.ok b.toNat, s)
    | (.error e, s) => (.error e, s)
  else
    match s.readFull size with
    | (.error e, s) => (.error e, s)
    | (.ok buf, s) => if buf.headD 0 = 0 then (.error .canonSize, s) else (.ok (BigEndian.toNat buf), s)

/-- The size `readKind` reads after a tag with its length, and the error it returns with it. -/
def readLongSize (s : Stream) (size : ℕ) : (ℕ × Option RlpError) × Stream :=
  match s.readUint size with
  | (.error e, s) => ((0, some e), s)
  | (.ok size, s) => ((size, if size < 56 then some .canonSize else none), s)

/-- The switch of `readKind` on the tag `b` it read. -/
def readTag (s : Stream) (b : UInt8) : (Kind × ℕ × Option RlpError) × Stream :=
  if b < 0x80 then ((.byte, 0, none), { s with byteval := b })
  else if b < 0xB8 then ((.string, (b - 0x80).toNat, none), s)
  else if b < 0xC0 then
    let ((size, err), s) := s.readLongSize (b - 0xB7).toNat
    ((.string, size, err), s)
  else if b < 0xF8 then ((.list, (b - 0xC0).toNat, none), s)
  else
    let ((size, err), s) := s.readLongSize (b - 0xF7).toNat
    ((.list, size, err), s)

/-- `readKind` of the stream: the kind and size of the value ahead, and the error, as the source returns the three
together. -/
def readKind (s : Stream) : (Kind × ℕ × Option RlpError) × Stream :=
  match s.readByte with
  | (.error e, s) =>
    -- at toplevel, adjust the error to actual EOF
    let e := if s.stack = [] ∧ (e = .unexpectedEOF ∨ e = .valueTooLarge) then .eof else e
    ((.byte, 0, some e), s)
  | (.ok b, s) => { s with byteval := 0 }.readTag b

/-- The error `Kind` records after a header: that of `readKind`, or the value's size against what is left of the
input at toplevel or of the innermost list. -/
def sizeError (s : Stream) (size : ℕ) (err : Option RlpError) : Option RlpError :=
  match err with
  | some e => some e
  | none =>
    match s.stack with
    | [] => if s.limited ∧ size > s.remaining then some .valueTooLarge else none
    | tos :: _ => if size > tos.size - tos.pos then some .elemTooLarge else none

/-- `Kind`: the kind and size of the value ahead; the header is read once, and kept with its error until the value
is read.  At the end of the innermost list it is `EOL`. -/
def kindAhead (s : Stream) : Except RlpError (Kind × ℕ) × Stream :=
  match s.kind with
  | some k => (match s.kinderr with | some e => .error e | none => .ok (k, s.size), s)
  | none =>
    let s := { s with kinderr := none }
    if s.stack.head?.any fun tos => tos.pos = tos.size then (.error .eol, s)
    else
      let ((k, size, err), s) := s.readKind
      let err := s.sizeError size err
      let s := { s with kind := some k, size := size, kinderr := err }
      (match err with | some e => .error e | none => .ok (k, size), s)

/-- `Bytes`: the content of a string, or the byte of a single byte. -/
def bytes (s : Stream) : Except RlpError (List UInt8) × Stream :=
  match s.kindAhead with
  | (.error e, s) => (.error e, s)
  | (.ok (.byte, _), s) => (.ok [s.byteval], { s with kind := none })
  | (.ok (.string, size), s) =>
    match s.readFull size with
    | (.error e, s) => (.error e, s)
    | (.ok b, s) => if size = 1 ∧ b.headD 0 < 128 then (.error .canonSize, s) else (.ok b, s)
  | (.ok (.list, _), s) => (.error .expectedString, s)

/-- `NewList`. -/
def newList (s : Stream) (size : ℕ) : Stream := { s with stack := ⟨0, size⟩ :: s.stack, kind := none, size := 0 }

/-- `List`: start decoding a list; its size. -/
def list (s : Stream) : Except RlpError ℕ × Stream :=
  match s.kindAhead with
  | (.error e, s) => (.error e, s)
  | (.ok (kind, size), s) => if kind ≠ .list then (.error .expectedList, s) else (.ok size, s.newList size)

/-- `ListEnd`: back to the enclosing list, which moves past this one. -/
def listEnd (s : Stream) : Except RlpError Unit × Stream :=
  match s.stack with
  | [] => (.error .notInList, s)
  | tos :: rest =>
    if tos.pos ≠ tos.size then (.error .notAtEOL, s)
    else
      let stack := match rest with
        | p :: rest => { p with pos := p.pos + tos.size } :: rest
        | [] => []
      (.ok (), { s with stack := stack, kind := none, size := 0 })

end Stream

/-! ### What each method does -/

/-- The stack after `n` more bytes of the innermost list are read. -/
def advance : List Listpos → ℕ → List Listpos
  | tos :: rest, n => { tos with pos := tos.pos + n } :: rest
  | [], _ => []

@[simp] theorem advance_cons (tos : Listpos) (rest : List Listpos) (n : ℕ) :
    advance (tos :: rest) n = { tos with pos := tos.pos + n } :: rest := rfl

@[simp] theorem advance_zero (st : List Listpos) : advance st 0 = st := by
  cases st <;> rfl

theorem advance_advance (st : List Listpos) (n m : ℕ) : advance (advance st n) m = advance st (n + m) := by
  cases st with
  | nil => rfl
  | cons tos rest => simp only [advance, Nat.add_assoc]

namespace Stream

/-- There is room for `n` more bytes: in the innermost list, and in the input. -/
def Fits (s : Stream) (n : ℕ) : Prop := (∀ tos ∈ s.stack.head?, n ≤ tos.size - tos.pos) ∧ n ≤ s.remaining

/-- The stream after `willRead` let the next `n` bytes be read, and they were. -/
def consume (s : Stream) (n : ℕ) : Stream :=
  { s with r := s.r.drop n, remaining := s.remaining - n, kind := none, stack := advance s.stack n }

/-- The stream once `Kind` has read a header of `n` bytes, of a value of kind `k` and size `size`. -/
def ahead (s : Stream) (n : ℕ) (k : Kind) (size : ℕ) (byteval : UInt8) : Stream :=
  { s.consume n with kind := some k, size := size, byteval := byteval, kinderr := none }

@[simp] theorem consume_r (s : Stream) (n : ℕ) : (s.consume n).r = s.r.drop n := rfl
@[simp] theorem consume_remaining (s : Stream) (n : ℕ) : (s.consume n).remaining = s.remaining - n := rfl
@[simp] theorem consume_limited (s : Stream) (n : ℕ) : (s.consume n).limited = s.limited := rfl
@[simp] theorem consume_kind (s : Stream) (n : ℕ) : (s.consume n).kind = none := rfl
@[simp] theorem consume_stack (s : Stream) (n : ℕ) : (s.consume n).stack = advance s.stack n := rfl
@[simp] theorem ahead_r (s : Stream) (n : ℕ) (k : Kind) (size : ℕ) (b : UInt8) :
    (s.ahead n k size b).r = s.r.drop n := rfl
@[simp] theorem ahead_remaining (s : Stream) (n : ℕ) (k : Kind) (size : ℕ) (b : UInt8) :
    (s.ahead n k size b).remaining = s.remaining - n := rfl
@[simp] theorem ahead_limited (s : Stream) (n : ℕ) (k : Kind) (size : ℕ) (b : UInt8) :
    (s.ahead n k size b).limited = s.limited := rfl
@[simp] theorem ahead_kind (s : Stream) (n : ℕ) (k : Kind) (size : ℕ) (b : UInt8) :
    (s.ahead n k size b).kind = some k := rfl
@[simp] theorem ahead_size (s : Stream) (n : ℕ) (k : Kind) (size : ℕ) (b : UInt8) :
    (s.ahead n k size b).size = size := rfl
@[simp] theorem ahead_kinderr (s : Stream) (n : ℕ) (k : Kind) (size : ℕ) (b : UInt8) :
    (s.ahead n k size b).kinderr = none := rfl
@[simp] theorem ahead_stack (s : Stream) (n : ℕ) (k : Kind) (size : ℕ) (b : UInt8) :
    (s.ahead n k size b).stack = advance s.stack n := rfl

theorem willRead_eq_ok {s s' : Stream} {n : ℕ} (hl : s.limited = true) :
    s.willRead n = (.ok (), s') ↔
      s.Fits n ∧ s' = { s with kind := none, stack := advance s.stack n, remaining := s.remaining - n } := by
  obtain ⟨r, remaining, limited, kind, size, byteval, kinderr, stack⟩ := s
  subst hl
  -- the room in the innermost list is checked first, then the room in the input
  by_cases hrem : remaining < n
  · cases stack with
    | nil => simp [willRead, Fits, hrem]
    | cons tos rest =>
      by_cases hpos : tos.size - tos.pos < n
      · simp [willRead, Fits, hpos]
      · simp [willRead, Fits, hrem, hpos]
  · cases stack with
    | nil =>
      simp [willRead, Fits, advance, hrem, Nat.le_of_not_lt hrem]
      exact eq_comm
    | cons tos rest =>
      by_cases hpos : tos.size - tos.pos < n
      · simp [willRead, Fits, hpos]
      · simp [willRead, Fits, advance, hrem, hpos, Nat.le_of_not_lt hrem, Nat.le_of_not_lt hpos]
        exact eq_comm

theorem willRead_fits {s : Stream} {n : ℕ} (hl : s.limited = true) (h : s.Fits n) :
    s.willRead n = (.ok (), { s with kind := none, stack := advance s.stack n, remaining := s.remaining - n }) :=
  (willRead_eq_ok hl).2 ⟨h, rfl⟩

theorem readByte_eq_ok {s s' : Stream} {x : UInt8} (hl : s.limited = true) :
    s.readByte = (.ok x, s') ↔ s.Fits 1 ∧ s.r.head? = some x ∧ s' = s.consume 1 := by
  by_cases hfit : s.Fits 1
  · cases hr : s.r with
    | nil => simp [readByte, willRead_fits hl hfit, hr]
    | cons b rest =>
      simp [readByte, willRead_fits hl hfit, hr, hfit, consume]
      rintro rfl
      exact eq_comm
  · rcases h : s.willRead 1 with ⟨e | ⟨⟩, s1⟩
    · simp [readByte, h, hfit]
    · exact absurd ((willRead_eq_ok hl).1 h).1 hfit

theorem readFull_eq_ok {s s' : Stream} {n : ℕ} {bs : List UInt8} (hl : s.limited = true) :
    s.readFull n = (.ok bs, s') ↔ s.Fits n ∧ n ≤ s.r.length ∧ bs = s.r.take n ∧ s' = s.consume n := by
  by_cases hfit : s.Fits n
  · by_cases hn : n ≤ s.r.length
    · simp [readFull, willRead_fits hl hfit, hfit, hn, consume, eq_comm]
    · simp [readFull, willRead_fits hl hfit, hn]
  · rcases h : s.willRead n with ⟨e | ⟨⟩, s1⟩
    · simp [readFull, h, hfit]
    · exact absurd ((willRead_eq_ok hl).1 h).1 hfit

/-- `readUint` of one byte or more: the bytes, with no leading zero from two bytes on. -/
theorem readUint_eq_ok {s s' : Stream} {size x : ℕ} (hl : s.limited = true) (h1 : 1 ≤ size) :
    s.readUint size = (.ok x, s') ↔ s.Fits size ∧ size ≤ s.r.length ∧ (size = 1 ∨ s.r.headD 0 ≠ 0) ∧
      x = BigEndian.toNat (s.r.take size) ∧ s' = s.consume size := by
  by_cases hs1 : size = 1
  · -- one byte, through readByte
    subst hs1
    rcases h : s.readByte with ⟨e | b, s1⟩
    · simp only [readUint, Nat.one_ne_zero, ↓reduceIte, h, Prod.mk.injEq, reduceCtorEq, false_and, false_iff]
      rintro ⟨hfit, hn, -, -, -⟩
      obtain ⟨b, rest, hr⟩ := List.exists_cons_of_length_pos hn
      have := (readByte_eq_ok hl (x := b)).2 ⟨hfit, by simp [hr], rfl⟩
      rw [h] at this
      cases this
    · obtain ⟨hfit, hb, rfl⟩ := (readByte_eq_ok hl).1 h
      obtain ⟨rest, hr⟩ : ∃ rest, s.r = b :: rest := by
        cases hr : s.r <;> simp_all
      simp only [readUint, Nat.one_ne_zero, ↓reduceIte, h, Prod.mk.injEq, Except.ok.injEq]
      simp only [hfit, hr, List.length_cons, List.take_succ_cons, List.take_zero, BigEndian.toNat, List.length_nil,
        pow_zero, mul_one, add_zero, true_or, true_and, Nat.le_add_left]
      exact and_congr eq_comm eq_comm
  · -- two bytes or more, through readFull
    rcases h : s.readFull size with ⟨e | bs, s1⟩
    · simp only [readUint, if_neg (show size ≠ 0 by omega), if_neg hs1, h, Prod.mk.injEq, reduceCtorEq, false_and,
        false_iff]
      rintro ⟨hfit, hn, -, -, -⟩
      have : s.readFull size = (.ok (s.r.take size), s.consume size) := (readFull_eq_ok hl).2 ⟨hfit, hn, rfl, rfl⟩
      rw [h] at this
      cases this
    · obtain ⟨hfit, hn, rfl, rfl⟩ := (readFull_eq_ok hl).1 h
      simp only [readUint, if_neg (show size ≠ 0 by omega), if_neg hs1, h, headD_take h1]
      by_cases hz : s.r.headD 0 = 0
      · rw [if_pos hz]
        constructor
        · intro h
          cases h
        · rintro ⟨-, -, h | h, -⟩
          · exact absurd h hs1
          · exact absurd hz h
      · rw [if_neg hz]
        constructor
        · intro h
          cases h
          exact ⟨hfit, hn, .inr hz, rfl, rfl⟩
        · rintro ⟨-, -, -, rfl, rfl⟩
          rfl

theorem consume_consume (s : Stream) (n m : ℕ) : (s.consume n).consume m = s.consume (n + m) := by
  simp only [consume, List.drop_drop, Nat.sub_sub, advance_advance]

theorem fits_consume {s : Stream} {n m : ℕ} (h : s.Fits (n + m)) : (s.consume n).Fits m := by
  obtain ⟨hst, hrem⟩ := h
  refine ⟨fun tos htos => ?_, by simp only [consume]; omega⟩
  cases hs : s.stack with
  | nil => simp [consume, hs, advance] at htos
  | cons top rest =>
    simp only [consume, hs, advance, List.head?_cons, Option.mem_def, Option.some.injEq] at htos
    subst htos
    have := hst top (by simp [hs])
    simp only
    omega

/-- The size after a tag with the length of the size in it, as `readKind` accepts it: the bytes `putint` writes
for a size from 56 on. -/
theorem readLongSize_eq_ok {s s' : Stream} {L size : ℕ} (hl : s.limited = true) (hL1 : 1 ≤ L) (hL8 : L ≤ 8) :
    s.readLongSize L = ((size, none), s') ↔ s.Fits L ∧ 56 ≤ size ∧ size < 2 ^ 64 ∧
      (putint (UInt64.ofNat size)).length = L ∧ s.r.take L = putint (UInt64.ofNat size) ∧ s' = s.consume L := by
  constructor
  · intro h
    rcases hu : s.readUint L with ⟨e | x, s1⟩
    · simp [readLongSize, hu] at h
    simp only [readLongSize, hu, Prod.mk.injEq] at h
    obtain ⟨⟨rfl, hcanon⟩, rfl⟩ := h
    have h56 : 56 ≤ x := by
      by_contra hlt
      simp [Nat.lt_of_not_le hlt] at hcanon
    obtain ⟨hfit, hn, h1, rfl, rfl⟩ := (readUint_eq_ok hl hL1).1 hu
    have hlen : (s.r.take L).length = L := by simp [hn]
    -- a single byte of 56 or more is no zero either
    have hhead : (s.r.take L).headD 0 ≠ 0 := by
      rw [headD_take hL1]
      rcases h1 with rfl | h1
      · obtain ⟨b, rest, hr⟩ := List.exists_cons_of_length_pos (by omega : 0 < s.r.length)
        simp only [hr, List.take_succ_cons, List.take_zero, BigEndian.toNat, List.length_nil, pow_zero, mul_one,
          add_zero] at h56
        simp only [hr, List.headD_cons]
        intro hb
        simp [hb] at h56
      · exact h1
    have hput := putint_toNat (by omega) (by omega) hhead
    have h64 := toNat_lt_of_length_le (c := s.r.take L) (by omega)
    exact ⟨hfit, h56, h64, by rw [hput, hlen], hput.symm, rfl⟩
  · rintro ⟨hfit, h56, h64, hlen, htake, rfl⟩
    have hn : L ≤ s.r.length := by
      have := congrArg List.length htake
      simp only [List.length_take] at this
      omega
    have hhead : s.r.headD 0 ≠ 0 := by
      rw [← headD_take hL1, htake]
      exact headD_putint_ne_zero (ofNat_ne_zero (by omega) h64)
    have hu : s.readUint L = (.ok size, s.consume L) := (readUint_eq_ok hl hL1).2
      ⟨hfit, hn, .inr hhead, by rw [htake, toNat_putint, toNat_ofNat_of_lt h64], rfl⟩
    simp [readLongSize, hu, Nat.not_lt.2 h56]

/-- The switch of `readKind` with the tag compared and reduced as a number. -/
theorem readTag_eq (s : Stream) (b : UInt8) : s.readTag b =
    if b.toNat < 0x80 then ((.byte, 0, none), { s with byteval := b })
    else if b.toNat < 0xB8 then ((.string, b.toNat - 0x80, none), s)
    else if b.toNat < 0xC0 then
      match s.readLongSize (b.toNat - 0xB7) with
      | ((size, err), s) => ((.string, size, err), s)
    else if b.toNat < 0xF8 then ((.list, b.toNat - 0xC0, none), s)
    else
      match s.readLongSize (b.toNat - 0xF7) with
      | ((size, err), s) => ((.list, size, err), s) := by
  unfold readTag
  simp only [UInt8.lt_iff_toNat_lt, UInt8.reduceToNat]
  -- the branches in order; in each the tag is above the constant it loses
  by_cases h1 : b.toNat < 128
  · rw [if_pos h1, if_pos h1]
  rw [if_neg h1, if_neg h1]
  by_cases h2 : b.toNat < 184
  · rw [if_pos h2, if_pos h2, toNat_sub_tag (by decide) (show 128 ≤ b.toNat by omega)]
  rw [if_neg h2, if_neg h2]
  by_cases h3 : b.toNat < 192
  · rw [if_pos h3, if_pos h3, toNat_sub_tag (by decide) (show 183 ≤ b.toNat by omega)]
  rw [if_neg h3, if_neg h3]
  by_cases h4 : b.toNat < 248
  · rw [if_pos h4, if_pos h4, toNat_sub_tag (by decide) (show 192 ≤ b.toNat by omega)]
  rw [if_neg h4, if_neg h4, toNat_sub_tag (by decide) (show 247 ≤ b.toNat by omega)]

/-- Every tag the switch accepts with no error: a byte below `0x80`; a tag with the size in it; or a tag with the
length of the size in it, then the size. -/
theorem readTag_eq_ok {s s' : Stream} {b : UInt8} {k : Kind} {size : ℕ} (h : s.readTag b = ((k, size, none), s')) :
    (k = .byte ∧ b < 0x80 ∧ size = 0 ∧ s' = { s with byteval := b }) ∨
    (k ≠ .byte ∧ size < 56 ∧ b = k.smallTag + UInt8.ofNat size ∧ s' = s) ∨
    (k ≠ .byte ∧ ∃ L, 1 ≤ L ∧ L ≤ 8 ∧ b = k.largeTag + UInt8.ofNat L ∧ s.readLongSize L = ((size, none), s')) := by
  have hb := b.toNat_lt
  rw [readTag_eq] at h
  split_ifs at h with h1 h2 h3 h4
  · simp only [Prod.mk.injEq] at h
    obtain ⟨⟨rfl, rfl, -⟩, rfl⟩ := h
    exact .inl ⟨rfl, UInt8.lt_iff_toNat_lt.2 h1, rfl, rfl⟩
  · simp only [Prod.mk.injEq] at h
    obtain ⟨⟨rfl, rfl, -⟩, rfl⟩ := h
    exact .inr (.inl ⟨by decide, by omega, eq_tag_add (t := 0x80) (by simp only [UInt8.reduceToNat]; omega), rfl⟩)
  · rcases hr : s.readLongSize (b.toNat - 0xB7) with ⟨⟨size', err⟩, s1⟩
    rw [hr] at h
    simp only [Prod.mk.injEq] at h
    obtain ⟨⟨rfl, rfl, rfl⟩, rfl⟩ := h
    exact .inr (.inr ⟨by decide, b.toNat - 0xB7, by omega, by omega,
      eq_tag_add (t := 0xB7) (by simp only [UInt8.reduceToNat]; omega), hr⟩)
  · simp only [Prod.mk.injEq] at h
    obtain ⟨⟨rfl, rfl, -⟩, rfl⟩ := h
    exact .inr (.inl ⟨by decide, by omega, eq_tag_add (t := 0xC0) (by simp only [UInt8.reduceToNat]; omega), rfl⟩)
  · rcases hr : s.readLongSize (b.toNat - 0xF7) with ⟨⟨size', err⟩, s1⟩
    rw [hr] at h
    simp only [Prod.mk.injEq] at h
    obtain ⟨⟨rfl, rfl, rfl⟩, rfl⟩ := h
    exact .inr (.inr ⟨by decide, b.toNat - 0xF7, by omega, by omega,
      eq_tag_add (t := 0xF7) (by simp only [UInt8.reduceToNat]; omega), hr⟩)

theorem readTag_short (s : Stream) {k : Kind} (hk : k ≠ .byte) {n : ℕ} (hn : n < 56) :
    s.readTag (k.smallTag + UInt8.ofNat n) = ((k, n, none), s) := by
  cases k with
  | byte => exact absurd rfl hk
  | string =>
    have hx : (Kind.string.smallTag + UInt8.ofNat n).toNat = 128 + n := toNat_tag_add (by show 128 + n < 256; omega)
    rw [readTag_eq, hx, if_neg (by omega), if_pos (by omega), Nat.add_sub_cancel_left]
  | list =>
    have hx : (Kind.list.smallTag + UInt8.ofNat n).toNat = 192 + n := toNat_tag_add (by show 192 + n < 256; omega)
    rw [readTag_eq, hx, if_neg (by omega), if_neg (by omega), if_neg (by omega), if_pos (by omega),
      Nat.add_sub_cancel_left]

theorem readTag_long {s s' : Stream} {k : Kind} (hk : k ≠ .byte) {L size : ℕ} (hL1 : 1 ≤ L) (hL8 : L ≤ 8)
    {err : Option RlpError} (hs : s.readLongSize L = ((size, err), s')) :
    s.readTag (k.largeTag + UInt8.ofNat L) = ((k, size, err), s') := by
  cases k with
  | byte => exact absurd rfl hk
  | string =>
    have hx : (Kind.string.largeTag + UInt8.ofNat L).toNat = 183 + L := toNat_tag_add (by show 183 + L < 256; omega)
    rw [readTag_eq, hx, if_neg (by omega), if_neg (by omega), if_pos (by omega), Nat.add_sub_cancel_left, hs]
  | list =>
    have hx : (Kind.list.largeTag + UInt8.ofNat L).toNat = 247 + L := toNat_tag_add (by show 247 + L < 256; omega)
    rw [readTag_eq, hx, if_neg (by omega), if_neg (by omega), if_neg (by omega), if_neg (by omega),
      Nat.add_sub_cancel_left, hs]

theorem readKind_byte {s : Stream} {x : UInt8} {rest : List UInt8} (hl : s.limited = true) (hfit : s.Fits 1)
    (hr : s.r = x :: rest) (hx : x < 0x80) : s.readKind = ((.byte, 0, none), { s.consume 1 with byteval := x }) := by
  have hb : s.readByte = (.ok x, s.consume 1) := (readByte_eq_ok hl).2 ⟨hfit, by simp [hr], rfl⟩
  have hx' : x.toNat < 0x80 := by simpa using UInt8.lt_iff_toNat_lt.1 hx
  simp only [readKind, hb]
  rw [readTag_eq, if_pos hx']

/-- `readKind` reads back the header the encoder writes for a string or a list. -/
theorem readKind_header {s : Stream} {k : Kind} {c rest : List UInt8} (hk : k ≠ .byte) (hc : c.length < 2 ^ 64)
    (hl : s.limited = true) (hfit : s.Fits (header k c).length) (hr : s.r = header k c ++ rest) :
    s.readKind = ((k, c.length, none), { s.consume (header k c).length with byteval := 0 }) := by
  by_cases hlt : c.length < 56
  · -- the size in the tag
    rw [header_of_lt hk hlt] at hfit hr ⊢
    have hb : s.readByte = (.ok (k.smallTag + UInt8.ofNat c.length), s.consume 1) :=
      (readByte_eq_ok hl).2 ⟨hfit, by simp [hr], rfl⟩
    simp only [readKind, hb, readTag_short _ hk hlt, List.length_singleton]
  · -- the length of the size in the tag, then the size
    rw [header_of_le hk (by omega) hc] at hfit hr ⊢
    set p := putint (UInt64.ofNat c.length) with hp
    have hL1 : 1 ≤ p.length := by rw [hp, length_putint]; exact putintSize_pos _
    have hL8 : p.length ≤ 8 := by rw [hp, length_putint]; exact putintSize_le _
    rw [List.length_cons, Nat.add_comm] at hfit
    have hb : s.readByte = (.ok (k.largeTag + UInt8.ofNat p.length), s.consume 1) :=
      (readByte_eq_ok hl).2 ⟨⟨fun tos h => by have := hfit.1 tos h; omega, by have := hfit.2; omega⟩,
        by simp [hr], rfl⟩
    have hfit1 : (s.consume 1).Fits p.length := fits_consume hfit
    have hls : ({ s.consume 1 with byteval := 0 } : Stream).readLongSize p.length =
        ((c.length, none), ({ s.consume 1 with byteval := 0 } : Stream).consume p.length) :=
      (readLongSize_eq_ok (s := { s.consume 1 with byteval := 0 }) hl hL1 hL8).2
        ⟨hfit1, by omega, hc, rfl, by simp [consume, hr, hp], rfl⟩
    simp only [readKind, hb, readTag_long hk hL1 hL8 hls, List.length_cons]
    rw [show ({ s.consume 1 with byteval := 0 } : Stream).consume p.length
      = { (s.consume 1).consume p.length with byteval := 0 } from rfl, consume_consume, Nat.add_comm]

/-- What `readKind` accepts with no error: a byte below `0x80`, or the header the encoder writes for a string or a
list of the size it reads. -/
theorem readKind_eq_ok {s s' : Stream} {k : Kind} {size : ℕ} (hl : s.limited = true)
    (h : s.readKind = ((k, size, none), s')) :
    (k = .byte ∧ size = 0 ∧ ∃ x rest, x < 0x80 ∧ s.r = x :: rest ∧ s' = { s.consume 1 with byteval := x }) ∨
    (k ≠ .byte ∧ size < 2 ^ 64 ∧ ∃ hdr rest, s.r = hdr ++ rest ∧
      (∀ c : List UInt8, c.length = size → header k c = hdr) ∧ s' = { s.consume hdr.length with byteval := 0 }) := by
  rcases hb : s.readByte with ⟨e | x, s1⟩
  · simp [readKind, hb] at h
  obtain ⟨-, hx0, rfl⟩ := (readByte_eq_ok hl).1 hb
  obtain ⟨rest, hr⟩ : ∃ rest, s.r = x :: rest := by
    cases hr : s.r <;> simp_all
  simp only [readKind, hb] at h
  rcases readTag_eq_ok h with ⟨rfl, hx, rfl, rfl⟩ | ⟨hk, hlt, rfl, rfl⟩ | ⟨hk, L, hL1, hL8, rfl, hls⟩
  · exact .inl ⟨rfl, rfl, x, rest, hx, hr, rfl⟩
  · -- the size in the tag
    exact .inr ⟨hk, by omega, _, rest, hr, fun c hc => by rw [header_of_lt hk (by omega), hc], rfl⟩
  · -- the length of the size in the tag, then the size
    obtain ⟨-, h56, h64, hlen, htake, rfl⟩ :=
      (readLongSize_eq_ok (s := { s.consume 1 with byteval := 0 }) hl hL1 hL8).1 hls
    have hrest : (s.consume 1).r = rest := by simp [consume, hr]
    rw [show ({ s.consume 1 with byteval := 0 } : Stream).r = (s.consume 1).r from rfl, hrest] at htake
    refine .inr ⟨hk, h64, (k.largeTag + UInt8.ofNat L) :: putint (UInt64.ofNat size), rest.drop L, ?_,
      fun c hc => by rw [header_of_le hk (by omega) (by omega), hc, hlen], ?_⟩
    · rw [hr, List.cons_append, ← htake, List.take_append_drop]
    · rw [show ({ s.consume 1 with byteval := 0 } : Stream).consume L
        = { (s.consume 1).consume L with byteval := 0 } from rfl, consume_consume, List.length_cons, hlen,
        Nat.add_comm]

theorem sizeError_of_fits {s : Stream} {size : ℕ} (h : s.Fits size) : s.sizeError size none = none := by
  obtain ⟨hst, hrem⟩ := h
  cases hs : s.stack with
  | nil =>
    simp only [sizeError, hs]
    rw [if_neg (by omega)]
  | cons tos rest =>
    have := hst tos (by simp [hs])
    simp only [sizeError, hs]
    rw [if_neg (by omega)]

theorem kindAhead_cached {s : Stream} {k : Kind} (hk : s.kind = some k) (he : s.kinderr = none) :
    s.kindAhead = (.ok (k, s.size), s) := by
  simp [kindAhead, hk, he]

/-- `s` is about to read the bytes `e`, with `rest` after them: nothing of `e` is read ahead, the stream is limited
to what is unread, and `e` fits what is left of the innermost list. -/
structure Before (s : Stream) (e rest : List UInt8) : Prop where
  r : s.r = e ++ rest
  kind : s.kind = none
  limited : s.limited = true
  remaining : s.remaining = s.r.length
  room : ∀ tos ∈ s.stack.head?, e.length ≤ tos.size - tos.pos

theorem Before.fits {s : Stream} {e rest : List UInt8} (h : s.Before e rest) : s.Fits e.length :=
  ⟨h.room, by rw [h.remaining, h.r, List.length_append]; omega⟩

/-- Before a value, the innermost list has not ended. -/
theorem Before.not_eol {s : Stream} {e rest : List UInt8} (h : s.Before e rest) (he : e ≠ []) :
    (s.stack.head?.any fun tos => tos.pos = tos.size) = false := by
  have hlen : 0 < e.length := List.length_pos_iff.2 he
  cases hs : s.stack with
  | nil => rfl
  | cons tos rest =>
    have := h.room tos (by simp [hs])
    simp only [List.head?_cons, Option.any_some, decide_eq_false_iff_not]
    omega

/-- `Kind` reads a byte below `0x80` as a single byte. -/
theorem kindAhead_byte {s : Stream} {x : UInt8} {rest : List UInt8} (hs : s.Before [x] rest) (hx : x < 0x80) :
    s.kindAhead = (.ok (.byte, 0), s.ahead 1 .byte 0 x) := by
  have hrk := readKind_byte (s := { s with kinderr := none }) hs.limited hs.fits
    (by simp [hs.r] : ({ s with kinderr := none } : Stream).r = x :: rest) hx
  have hse : ({ ({ s with kinderr := none } : Stream).consume 1 with byteval := x } : Stream).sizeError 0 none
      = none := sizeError_of_fits ⟨fun _ _ => Nat.zero_le _, Nat.zero_le _⟩
  unfold kindAhead
  split
  · simp_all [hs.kind]
  dsimp only
  split
  · simp_all [hs.not_eol (List.cons_ne_nil x [])]
  rw [hrk]
  dsimp only
  rw [hse]
  rfl

/-- `Kind` reads back the header the encoder writes for a string or a list, with the content's size. -/
theorem kindAhead_header {s : Stream} {k : Kind} {c rest : List UInt8} (hk : k ≠ .byte) (hc : c.length < 2 ^ 64)
    (hs : s.Before (header k c ++ c) rest) :
    s.kindAhead = (.ok (k, c.length), s.ahead (header k c).length k c.length 0) := by
  have hfit := hs.fits
  rw [List.length_append] at hfit
  have hrk := readKind_header (s := { s with kinderr := none }) hk hc hs.limited
    ⟨fun tos h => by have := hfit.1 tos h; omega, by have := hfit.2; simp only; omega⟩
    (by simp [hs.r, List.append_assoc] : ({ s with kinderr := none } : Stream).r = header k c ++ (c ++ rest))
  have hse : ({ ({ s with kinderr := none } : Stream).consume (header k c).length with byteval := 0 } : Stream).sizeError
      c.length none = none := sizeError_of_fits (fits_consume (s := { s with kinderr := none }) hfit)
  have hne : header k c ++ c ≠ [] := by
    rw [← List.length_pos_iff, List.length_append]
    have := length_header_pos hk c
    omega
  unfold kindAhead
  split
  · simp_all [hs.kind]
  dsimp only
  split
  · simp_all [hs.not_eol hne]
  rw [hrk]
  dsimp only
  rw [hse]
  rfl

theorem kindAhead_eol {s : Stream} (hk : s.kind = none) {tos : Listpos} {rest : List Listpos}
    (hs : s.stack = tos :: rest) (hend : tos.pos = tos.size) : s.kindAhead = (.error .eol, { s with kinderr := none }) := by
  unfold kindAhead
  split
  · simp_all
  dsimp only
  rw [if_pos (by simp [hs, hend])]

theorem list_cached {s : Stream} (hk : s.kind = some .list) (he : s.kinderr = none) :
    s.list = (.ok s.size, s.newList s.size) := by
  simp [list, kindAhead_cached hk he]

theorem bytes_byte {s : Stream} (hk : s.kind = some .byte) (he : s.kinderr = none) :
    s.bytes = (.ok [s.byteval], { s with kind := none }) := by
  simp [bytes, kindAhead_cached hk he]

/-- What `Kind` accepts after no header was read: what `readKind` accepts, if the size fits. -/
theorem kindAhead_eq_ok {s s' : Stream} {k : Kind} {size : ℕ} (hk : s.kind = none)
    (h : s.kindAhead = (.ok (k, size), s')) :
    ∃ s0, ({ s with kinderr := none } : Stream).readKind = ((k, size, none), s0) ∧
      s' = { s0 with kind := some k, size := size, kinderr := none } := by
  unfold kindAhead at h
  split at h
  · simp_all
  dsimp only at h
  split at h
  · cases h
  rcases hr : ({ s with kinderr := none } : Stream).readKind with ⟨⟨k', size', err⟩, s0⟩
  rw [hr] at h
  dsimp only at h
  rcases he : s0.sizeError size' err with _ | e
  · rw [he] at h
    simp only [Prod.mk.injEq, Except.ok.injEq] at h
    obtain ⟨⟨rfl, rfl⟩, rfl⟩ := h
    cases err with
    | none => exact ⟨s0, rfl, rfl⟩
    | some e => simp [sizeError] at he
  · rw [he] at h
    cases h

/-! ### `EOL` comes only from `Kind` -/

theorem willRead_ne_eol (s : Stream) (n : ℕ) : (s.willRead n).1 ≠ .error .eol := by
  unfold willRead
  dsimp only
  cases hs : s.stack with
  | nil =>
    dsimp only
    split_ifs <;> simp
  | cons tos rest =>
    dsimp only
    by_cases h1 : n > tos.size - tos.pos
    · rw [if_pos h1]
      simp
    · rw [if_neg h1]
      dsimp only
      split_ifs <;> simp

theorem readByte_ne_eol (s : Stream) : s.readByte.1 ≠ .error .eol := by
  have := s.willRead_ne_eol 1
  unfold readByte
  rcases h : s.willRead 1 with ⟨e | u, s1⟩
  · rw [h] at this
    simpa using this
  · dsimp only
    split <;> simp

theorem readFull_ne_eol (s : Stream) (n : ℕ) : (s.readFull n).1 ≠ .error .eol := by
  have := s.willRead_ne_eol n
  unfold readFull
  rcases h : s.willRead n with ⟨e | u, s1⟩
  · rw [h] at this
    simpa using this
  · dsimp only
    split_ifs <;> simp

theorem readLongSize_ne_eol (s : Stream) (L : ℕ) : (s.readLongSize L).1.2 ≠ some .eol := by
  unfold readLongSize readUint
  by_cases h0 : L = 0
  · simp [h0]
  by_cases h1 : L = 1
  · have := s.readByte_ne_eol
    rw [if_neg h0, if_pos h1]
    rcases h : s.readByte with ⟨e | b, s1⟩
    · rw [h] at this
      simpa using this
    · simp
  · have := s.readFull_ne_eol L
    rw [if_neg h0, if_neg h1]
    rcases h : s.readFull L with ⟨e | bs, s1⟩
    · rw [h] at this
      simpa using this
    · dsimp only
      split_ifs <;> simp

theorem readKind_ne_eol (s : Stream) : s.readKind.1.2.2 ≠ some .eol := by
  have := s.readByte_ne_eol
  unfold readKind
  rcases h : s.readByte with ⟨e | b, s1⟩
  · rw [h] at this
    dsimp only
    split_ifs <;> simp_all
  · dsimp only
    unfold readTag
    split_ifs
    · simp
    · simp
    · exact readLongSize_ne_eol _ _
    · simp
    · exact readLongSize_ne_eol _ _

theorem sizeError_ne_eol (s : Stream) (size : ℕ) {err : Option RlpError} (h : err ≠ some .eol) :
    s.sizeError size err ≠ some .eol := by
  unfold sizeError
  cases err with
  | some e => exact h
  | none =>
    cases s.stack with
    | nil =>
      dsimp only
      split_ifs <;> simp
    | cons tos rest =>
      dsimp only
      split_ifs <;> simp

/-- With nothing read ahead, `Kind` returns `EOL` only at the end of the innermost list, and reads nothing. -/
theorem kindAhead_eq_eol {s s' : Stream} (hk : s.kind = none) (h : s.kindAhead = (.error .eol, s')) :
    s' = { s with kinderr := none } := by
  unfold kindAhead at h
  split at h
  · simp_all
  dsimp only at h
  split at h
  · exact (Prod.mk.inj h).2.symm
  have hne := ({ s with kinderr := none } : Stream).readKind_ne_eol
  rcases hr : ({ s with kinderr := none } : Stream).readKind with ⟨⟨k', size', err⟩, s0⟩
  rw [hr] at h hne
  dsimp only at h hne
  exfalso
  rcases he : s0.sizeError size' err with _ | e
  · rw [he] at h
    cases h
  · rw [he] at h
    simp only [Prod.mk.injEq, Except.error.injEq] at h
    obtain ⟨rfl, -⟩ := h
    exact sizeError_ne_eol s0 size' hne he

theorem listEnd_eq_ok {s s' : Stream} : s.listEnd = (.ok (), s') ↔
    ∃ tos rest, s.stack = tos :: rest ∧ tos.pos = tos.size ∧
      s' = { s with stack := advance rest tos.size, kind := none, size := 0 } := by
  unfold listEnd
  rcases hs : s.stack with _ | ⟨tos, rest⟩
  · simp
  · dsimp only
    by_cases hp : tos.pos = tos.size
    · rw [if_neg (not_not.2 hp)]
      -- the enclosing list, if any, moves past this one
      constructor
      · intro h
        cases h
        refine ⟨tos, rest, rfl, hp, ?_⟩
        cases rest <;> rfl
      · rintro ⟨tos', rest', h, -, rfl⟩
        cases h
        cases rest <;> rfl
    · rw [if_pos hp]
      simp [hp]

theorem listEnd_ne_eol (s : Stream) : s.listEnd.1 ≠ .error .eol := by
  unfold listEnd
  split
  · simp
  · split_ifs <;> simp

theorem bytes_ne_eol {s : Stream} {k : Kind} (hk : s.kind = some k) (he : s.kinderr = none) :
    s.bytes.1 ≠ .error .eol := by
  unfold bytes
  rw [kindAhead_cached hk he]
  cases k with
  | byte => simp
  | string =>
    have := s.readFull_ne_eol s.size
    dsimp only
    rcases h : s.readFull s.size with ⟨e | b, s1⟩
    · rw [h] at this
      simpa using this
    · dsimp only
      split_ifs <;> simp
  | list => simp

/-! ### Reading a value -/

/-- `s'` is `s` with the next `n` bytes read, whatever `Kind` left in its scratch fields (`size`, `byteval`,
`kinderr`). -/
structure Moved (s s' : Stream) (n : ℕ) : Prop where
  r : s'.r = s.r.drop n
  remaining : s'.remaining = s.remaining - n
  limited : s'.limited = s.limited
  kind : s'.kind = none
  stack : s'.stack = advance s.stack n

theorem Moved.trans {s₁ s₂ s₃ : Stream} {n m : ℕ} (h₁ : Moved s₁ s₂ n) (h₂ : Moved s₂ s₃ m) :
    Moved s₁ s₃ (n + m) where
  r := by rw [h₂.r, h₁.r, List.drop_drop]
  remaining := by rw [h₂.remaining, h₁.remaining, Nat.sub_sub]
  limited := by rw [h₂.limited, h₁.limited]
  kind := h₂.kind
  stack := by rw [h₂.stack, h₁.stack, advance_advance]

theorem Moved.refl {s : Stream} (h : s.kind = none) : s.Moved s 0 :=
  ⟨by simp, by simp, rfl, h, by simp⟩

/-- A string: its header read by `Kind`, then its bytes. -/
theorem moved_ahead_consume (s : Stream) (n m : ℕ) (k : Kind) (size : ℕ) (b : UInt8) :
    s.Moved ((s.ahead n k size b).consume m) (n + m) :=
  ⟨by simp [List.drop_drop], by simp [Nat.sub_sub], rfl, rfl, by simp [advance_advance]⟩

/-- After the first of two pieces, the stream is before the second. -/
theorem Before.moved {s s' : Stream} {e e' rest : List UInt8} (hs : s.Before (e ++ e') rest)
    (hm : Moved s s' e.length) : s'.Before e' rest where
  r := by rw [hm.r, hs.r, List.append_assoc, List.drop_left]
  kind := hm.kind
  limited := by rw [hm.limited, hs.limited]
  remaining := by rw [hm.remaining, hs.remaining, hm.r, List.length_drop]
  room tos htos := by
    have hroom := hs.room
    rw [hm.stack] at htos
    cases hst : s.stack with
    | nil => simp [hst, advance] at htos
    | cons top rest =>
      simp only [hst, advance, List.head?_cons, Option.mem_def, Option.some.injEq] at htos
      subst htos
      have := hroom top (by simp [hst])
      rw [List.length_append] at this
      simp only
      omega

/-- Before two pieces, the stream is before the first, with the second in the rest. -/
theorem Before.left {s : Stream} {e e' rest : List UInt8} (hs : s.Before (e ++ e') rest) :
    s.Before e (e' ++ rest) where
  r := by rw [hs.r, List.append_assoc]
  kind := hs.kind
  limited := hs.limited
  remaining := hs.remaining
  room tos htos := by
    have := hs.room tos htos
    rw [List.length_append] at this
    omega


/-! ### Reading the encodings of strings and lists -/

/-- The check of `Bytes` passes on a string that the encoder gave a header. -/
theorem not_single_of_header {b : List UInt8} (hb : ¬ (b.length = 1 ∧ b.headD 0 ≤ 0x7F)) :
    ¬ (b.length = 1 ∧ b.headD 0 < 128) := fun h =>
  hb ⟨h.1, UInt8.le_iff_toNat_le.2 (by have := UInt8.lt_iff_toNat_lt.1 h.2; simp at this ⊢; omega)⟩

/-- A string with a header ahead: `Kind` reads the header, and `readFull` the string. -/
theorem readString {s : Stream} {b rest : List UInt8} (hb : ¬ (b.length = 1 ∧ b.headD 0 ≤ 0x7F))
    (h64 : (Value.bytes b).encode.length < 2 ^ 64) (hs : s.Before (Value.bytes b).encode rest) :
    s.kindAhead = (.ok (.string, b.length), s.ahead (header .string b).length .string b.length 0) ∧
      (s.ahead (header .string b).length .string b.length 0).readFull b.length =
        (.ok b, (s.ahead (header .string b).length .string b.length 0).consume b.length) ∧
      s.Moved ((s.ahead (header .string b).length .string b.length 0).consume b.length)
        (Value.bytes b).encode.length := by
  have he : (Value.bytes b).encode = header .string b ++ b := by rw [Value.encode, if_neg hb]; rfl
  rw [he] at hs h64 ⊢
  have hc : b.length < 2 ^ 64 := by rw [List.length_append] at h64; omega
  have hfit := hs.fits
  rw [List.length_append] at hfit
  have hr1 : (s.ahead (header .string b).length .string b.length 0).r = b ++ rest := by
    simp [hs.r, List.append_assoc]
  refine ⟨kindAhead_header (by decide) hc hs, ?_, ?_⟩
  · exact (readFull_eq_ok (s := s.ahead (header .string b).length .string b.length 0) hs.limited).2
      ⟨fits_consume hfit, by rw [hr1]; simp, by rw [hr1]; simp, rfl⟩
  · rw [List.length_append]
    exact moved_ahead_consume s _ _ _ _ _

/-- `Bytes` reads a string back from its encoding, whatever follows it. -/
theorem bytes_encode {s : Stream} {b rest : List UInt8} (h64 : (Value.bytes b).encode.length < 2 ^ 64)
    (hs : s.Before (Value.bytes b).encode rest) :
    ∃ s', s.bytes = (.ok b, s') ∧ s.Moved s' (Value.bytes b).encode.length := by
  by_cases hb : b.length = 1 ∧ b.headD 0 ≤ 0x7F
  · -- a single byte below `0x80` is its own encoding
    obtain ⟨x, rfl⟩ := List.length_eq_one_iff.1 hb.1
    have hx : x < 0x80 := UInt8.lt_iff_toNat_lt.2 (by have := UInt8.le_iff_toNat_le.1 hb.2; simp at this ⊢; omega)
    have he : (Value.bytes [x]).encode = [x] := by rw [Value.encode, if_pos hb]
    rw [he] at hs ⊢
    refine ⟨{ s.ahead 1 .byte 0 x with kind := none }, ?_, ⟨rfl, rfl, rfl, rfl, rfl⟩⟩
    rw [bytes, kindAhead_byte hs hx]
    rfl
  · obtain ⟨hk, hread, hm⟩ := readString hb h64 hs
    refine ⟨_, ?_, hm⟩
    rw [bytes, hk]
    dsimp only
    rw [hread]
    dsimp only
    rw [if_neg (not_single_of_header hb)]

/-- A list ahead: `Kind` reads its header, `List` opens it over the payload, and once the payload is read
`ListEnd` closes it, past the whole list. -/
theorem list_frame {s : Stream} {c rest : List UInt8} (hc : c.length < 2 ^ 64)
    (hs : s.Before (header .list c ++ c) rest) :
    ∃ s1, s.kindAhead = (.ok (.list, c.length), s1) ∧ s1.list = (.ok c.length, s1.newList c.length) ∧
      s.list = (.ok c.length, s1.newList c.length) ∧ (s1.newList c.length).Before c rest ∧
      (∃ tos outer, (s1.newList c.length).stack = tos :: outer ∧ tos.pos + c.length = tos.size) ∧
      ∀ s2, (s1.newList c.length).Moved s2 c.length →
        ∃ s3, s2.listEnd = (.ok (), s3) ∧ s.Moved s3 (header .list c ++ c).length := by
  set n := (header .list c).length with hn
  set s1 := s.ahead n .list c.length 0 with hs1
  have hk : s.kindAhead = (.ok (.list, c.length), s1) := kindAhead_header (by decide) hc hs
  have hlist : s1.list = (.ok c.length, s1.newList c.length) := list_cached rfl rfl
  refine ⟨s1, hk, hlist, by rw [list, hk]; rfl, ?_, ⟨⟨0, c.length⟩, advance s.stack n, rfl, by simp⟩, ?_⟩
  · exact ⟨by simp [newList, s1, n, hs.r, List.append_assoc], rfl, hs.limited,
      by simp [newList, s1, hs.remaining, hs.r, n], by simp [newList]⟩
  · -- the payload read, `ListEnd` pops the list and moves the enclosing one past it
    intro s2 hm
    have hst : s2.stack = ⟨c.length, c.length⟩ :: advance s.stack n := by
      rw [hm.stack]
      simp [newList, s1, advance]
    refine ⟨{ s2 with stack := advance s.stack (n + c.length), kind := none, size := 0 },
      listEnd_eq_ok.2 ⟨_, _, hst, rfl, by rw [advance_advance]⟩, ?_, ?_, ?_, rfl, ?_⟩
    · simp [hm.r, newList, s1, List.drop_drop, n]
    · simp [hm.remaining, newList, s1, Nat.sub_sub, n]
    · simp [hm.limited, newList, s1]
    · simp [n]

end Stream

end AmazeChain.Rlp
