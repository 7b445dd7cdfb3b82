import AmazeChain.Lib.WordBitmap
import AmazeChain.Txspool.Tx
import Mathlib.Order.Monotone.Basic

/-!
# Jump destination analysis

`codeBitmap` (`internal/vm/analysis.go`) walks the code left to right, from opcode to opcode, and marks the
immediate bytes of every `PUSH1`..`PUSH32` in a bitmap of 64-bit words four bytes longer than the code
(`markRun`).  `Contract.validJumpdest` (`internal/vm/contract.go`) accepts a destination inside the code
that holds `JUMPDEST` and is not marked, reading the bitmap from the contract itself, or for a contract with
a code hash from the `jumpdests` map the interpreter shares across its frames, computing and storing it when
it is missing.

The decode the analysis follows is `decodePos`: the `k`th position a left-to-right decode visits.  A
position is push data when it lies in the immediate bytes of an opcode at a decoded position
(`InPushData`); the bitmap marks exactly those (`codeBitmap_exact`), and an unmarked position inside the
code is a decoded one (`isOpcodePos_iff_not_inPushData`).  A `jumpdests` map whose entries are the
analyses of the code of their hash stays so, and through it every call of `validJumpdest` answers exactly
whether the destination is a `JUMPDEST` at a decoded position (`validJumpdests_spec`).

`SkipAnalysis` is kept as the contract's flag; nothing in the node sets it.
-/

namespace AmazeChain.Vm

open WordBitmap
open Txspool (u64)

def PUSH1 : UInt8 := 0x60
def PUSH32 : UInt8 := 0x7f
def JUMPDEST : UInt8 := 0x5b

/-- The loop of `codeBitmap` from `pc`, with fuel for one iteration per byte. -/
def codeBitmapLoop (code : List UInt8) : ℕ → ℕ → List (BitVec 64) → Option (List (BitVec 64))
  | 0, _, bits => some bits
  | fuel + 1, pc, bits =>
    match code[pc]? with
    | none => some bits
    | some op =>
      let pc := pc + 1
      if PUSH1 ≤ op ∧ op ≤ PUSH32 then
        let numbits := (op - PUSH1).toNat + 1
        -- `x := uint64(1) << (op - PUSH1)` smeared to the right, or-ed in at `pc / 64` and `pc & 63`
        (markRun bits pc (op - PUSH1).toNat).bind fun bits => codeBitmapLoop code fuel (pc + numbits) bits
      else codeBitmapLoop code fuel pc bits

/-- `codeBitmap`: the bitmap is `(len(code) + 32 + 63) / 64` words, in case the code ends with a `PUSH32`. -/
def codeBitmap (code : List UInt8) : Option (List (BitVec 64)) :=
  codeBitmapLoop code code.length 0 (List.replicate ((code.length + 32 + 63) / 64) 0)

/-- `isCodeFromAnalysis`: the bit of the destination is unset; an index past the bitmap is a panic. -/
def isCodeFromAnalysis (analysis : List (BitVec 64)) (udest : ℕ) : Option Bool :=
  analysis[udest / 64]?.map fun w => (w &&& (1#64 <<< (udest % 64))) == 0

/-- The part of a `Contract` the jump analysis reads: its code and code hash, the analysis it keeps, and
`skipAnalysis`. -/
structure Contract (Hash : Type) where
  code : List UInt8
  codeHash : Hash
  analysis : Option (List (BitVec 64))
  skipAnalysis : Bool

section Contract

variable {Hash : Type} [DecidableEq Hash] (zeroHash : Hash)

/-- `isCode`: with a code hash, the analysis of the shared `jumpdests` map, made and stored there when it
is missing, and stashed in the contract; without one (init code), the contract's own analysis, made once.
Returns the answer, the map and the contract after the call. -/
def isCode (jumpdests : Hash → Option (List (BitVec 64))) (c : Contract Hash) (udest : ℕ) :
    Option (Bool × (Hash → Option (List (BitVec 64))) × Contract Hash) :=
  if c.codeHash ≠ zeroHash then
    let found := match jumpdests c.codeHash with
      | some analysis => some (analysis, jumpdests)
      | none => (codeBitmap c.code).map fun analysis =>
        (analysis, Function.update jumpdests c.codeHash (some analysis))
    found.bind fun (analysis, jumpdests) =>
      (isCodeFromAnalysis analysis udest).map fun r => (r, jumpdests, { c with analysis := some analysis })
  else
    let found := match c.analysis with
      | some analysis => some analysis
      | none => codeBitmap c.code
    found.bind fun analysis =>
      (isCodeFromAnalysis analysis udest).map fun r => (r, jumpdests, { c with analysis := some analysis })

/-- `validJumpdest`: whether the destination is valid and whether the bitmap was used.  A destination at or
past `2 ^ 64` overflows `Uint64WithOverflow`. -/
def validJumpdest (jumpdests : Hash → Option (List (BitVec 64))) (c : Contract Hash) (dest : ℕ) :
    Option ((Bool × Bool) × (Hash → Option (List (BitVec 64))) × Contract Hash) :=
  if u64 ≤ dest ∨ c.code.length ≤ dest then some ((false, false), jumpdests, c)
  else if c.code[dest]? ≠ some JUMPDEST then some ((false, false), jumpdests, c)
  else if c.skipAnalysis then some ((true, false), jumpdests, c)
  else (isCode zeroHash jumpdests c dest).map fun (r, jumpdests, c) => ((r, true), jumpdests, c)

/-- A run of jumps: each call on a contract of the run, threading the shared map; the answers in order. -/
def validJumpdests (jumpdests : Hash → Option (List (BitVec 64))) :
    List (Contract Hash × ℕ) → Option (List Bool × (Hash → Option (List (BitVec 64))))
  | [] => some ([], jumpdests)
  | (c, dest) :: calls => (validJumpdest zeroHash jumpdests c dest).bind fun (r, jumpdests, _) =>
    (validJumpdests jumpdests calls).map fun (rs, jumpdests) => (r.1 :: rs, jumpdests)

end Contract

/-! ### The decode -/

/-- The immediate bytes of an opcode: `n` for `PUSHn`, none for the others. -/
def immediateSize (op : UInt8) : ℕ := if PUSH1 ≤ op ∧ op ≤ PUSH32 then (op - PUSH1).toNat + 1 else 0

/-- The immediate bytes of the opcode at a position, none past the code. -/
def immediateAt (code : List UInt8) (pc : ℕ) : ℕ := (code[pc]?.map immediateSize).getD 0

/-- The position a left-to-right decode goes to after the one at `pc`. -/
def nextPos (code : List UInt8) (pc : ℕ) : ℕ := pc + 1 + immediateAt code pc

/-- The `k`th position a decode from the start visits. -/
def decodePos (code : List UInt8) (k : ℕ) : ℕ := (nextPos code)^[k] 0

/-- A position the decode visits: an opcode, when it is inside the code. -/
def IsOpcodePos (code : List UInt8) (d : ℕ) : Prop := ∃ k, decodePos code k = d

/-- A position in the immediate bytes of an opcode the decode visits, truncated pushes at the end
included. -/
def InPushData (code : List UInt8) (i : ℕ) : Prop :=
  ∃ k, decodePos code k < code.length ∧ decodePos code k < i ∧ i ≤ decodePos code k + immediateAt code (decodePos code k)

/-- The destinations `validJumpdest` should accept: a `JUMPDEST` at a decoded position. -/
def ValidDest (code : List UInt8) (d : ℕ) : Prop := d < code.length ∧ code[d]? = some JUMPDEST ∧ IsOpcodePos code d

section Decode

variable {code : List UInt8}

@[simp] theorem decodePos_zero : decodePos code 0 = 0 := rfl

theorem decodePos_succ (k : ℕ) : decodePos code (k + 1) = nextPos code (decodePos code k) :=
  Function.iterate_succ_apply' _ _ _

theorem decodePos_strictMono : StrictMono (decodePos code) :=
  strictMono_nat_of_lt_succ fun k => by rw [decodePos_succ, nextPos]; omega

theorem le_decodePos (k : ℕ) : k ≤ decodePos code k := by
  induction k with
  | zero => exact Nat.zero_le _
  | succ k ih =>
    rw [decodePos_succ, nextPos]
    omega

theorem immediateAt_le (pc : ℕ) : immediateAt code pc ≤ 32 := by
  unfold immediateAt immediateSize
  cases code[pc]? with
  | none => simp
  | some op =>
    simp only [Option.map_some, Option.getD_some]
    split
    · rename_i h
      obtain ⟨h1, h2⟩ := h
      have hsub : (op - PUSH1).toNat = op.toNat - PUSH1.toNat := UInt8.toNat_sub_of_le _ _ h1
      have h2' : op.toNat ≤ PUSH32.toNat := UInt8.le_iff_toNat_le.1 h2
      rw [hsub]
      rw [show PUSH32.toNat = 127 from rfl] at h2'
      rw [show PUSH1.toNat = 96 from rfl]
      omega
    · omega

/-- No decoded position lies between one and the next. -/
theorem nextPos_le_of_lt {j k : ℕ} (h : decodePos code j < decodePos code k) :
    decodePos code (j + 1) ≤ decodePos code k :=
  decodePos_strictMono.monotone (decodePos_strictMono.lt_iff_lt.1 h)

/-- Inside the code, the positions that are not push data are the decoded ones. -/
theorem isOpcodePos_iff_not_inPushData {d : ℕ} (hd : d < code.length) :
    IsOpcodePos code d ↔ ¬ InPushData code d := by
  constructor
  · rintro ⟨k, rfl⟩ ⟨j, -, hjd, hle⟩
    have := nextPos_le_of_lt hjd
    rw [decodePos_succ, nextPos] at this
    omega
  · intro hdata
    -- the last decoded position at or before `d`
    have hex : ∃ k, d < decodePos code (k + 1) := ⟨d, by have := @le_decodePos code (d + 1); omega⟩
    classical
    let k := Nat.find hex
    have hk : d < decodePos code (k + 1) := Nat.find_spec hex
    have hkd : decodePos code k ≤ d := by
      cases hk' : k with
      | zero => simp
      | succ m =>
        have := Nat.find_min hex (show m < k by omega)
        omega
    refine ⟨k, ?_⟩
    by_contra hne
    rw [decodePos_succ, nextPos] at hk
    exact hdata ⟨k, by omega, by omega, by omega⟩

/-! ### The bitmap -/

/-- The bitmap once the loop has visited the first `k` decoded positions: it marks the immediate bytes of
those inside the code. -/
def Marked (code : List UInt8) (k : ℕ) (bits : List (BitVec 64)) : Prop :=
  bits.length = (code.length + 32 + 63) / 64 ∧
    ∀ i, bitAt bits i = true ↔ ∃ m < k, decodePos code m < code.length ∧ decodePos code m < i ∧
      i ≤ decodePos code m + immediateAt code (decodePos code m)

/-- One iteration of the loop at an opcode: a push marks its immediate bytes, and the loop goes on at the
next decoded position. -/
theorem codeBitmapLoop_of_getElem? {fuel pc : ℕ} {bits : List (BitVec 64)} {op : UInt8} (hop : code[pc]? = some op) :
    codeBitmapLoop code (fuel + 1) pc bits =
      if PUSH1 ≤ op ∧ op ≤ PUSH32 then
        (markRun bits (pc + 1) (op - PUSH1).toNat).bind fun bits => codeBitmapLoop code fuel (nextPos code pc) bits
      else codeBitmapLoop code fuel (nextPos code pc) bits := by
  have himm : immediateAt code pc = immediateSize op := by rw [immediateAt, hop]; rfl
  simp only [codeBitmapLoop, hop, nextPos, himm, immediateSize]
  split_ifs <;> rfl

theorem marked_zero : Marked code 0 (List.replicate ((code.length + 32 + 63) / 64) 0) := by
  refine ⟨List.length_replicate, fun i => ?_⟩
  rw [bitAt_replicate_zero]
  exact ⟨fun h => absurd h Bool.false_ne_true, fun ⟨m, hm, _⟩ => absurd hm (Nat.not_lt_zero m)⟩

/-- The loop keeps `Marked` from one decoded position to the next. -/
theorem Marked.step {k : ℕ} {bits : List (BitVec 64)} (hm : Marked code k bits) {op : UInt8}
    (hop : code[decodePos code k]? = some op) (fuel : ℕ) :
    ∃ bits', codeBitmapLoop code (fuel + 1) (decodePos code k) bits =
      codeBitmapLoop code fuel (decodePos code (k + 1)) bits' ∧ Marked code (k + 1) bits' := by
  obtain ⟨hlen, hbits⟩ := hm
  have hpc : decodePos code k < code.length := (List.getElem?_eq_some_iff.1 hop).1
  have himm : immediateAt code (decodePos code k) = immediateSize op := by rw [immediateAt, hop]; rfl
  -- the new decoded position adds the bits of its immediate bytes
  have hnew : ∀ i, (∃ m < k + 1, decodePos code m < code.length ∧ decodePos code m < i ∧
      i ≤ decodePos code m + immediateAt code (decodePos code m)) ↔
      bitAt bits i = true ∨ (decodePos code k < i ∧ i ≤ decodePos code k + immediateSize op) := by
    intro i
    rw [hbits, ← himm]
    constructor
    · rintro ⟨m, hm, hdata⟩
      rcases Nat.lt_succ_iff_lt_or_eq.1 hm with hm | rfl
      · exact .inl ⟨m, hm, hdata⟩
      · exact .inr hdata.2
    · rintro (⟨m, hm, hdata⟩ | hdata)
      · exact ⟨m, by omega, hdata⟩
      · exact ⟨k, by omega, hpc, hdata⟩
  rw [codeBitmapLoop_of_getElem? hop, ← decodePos_succ]
  split
  · rename_i hpush
    obtain ⟨bits', hmark, hlen'⟩ := @markRun_isSome bits (decodePos code k + 1)
      (op - PUSH1).toNat (by rw [hlen]; omega) (by rw [hlen]; omega)
    have hk : (op - PUSH1).toNat < 32 := by
      have := @immediateAt_le code (decodePos code k)
      rw [himm, immediateSize, if_pos hpush] at this
      omega
    refine ⟨bits', by rw [hmark, Option.bind_some], hlen'.trans hlen, fun i => ?_⟩
    rw [hnew, bitAt_markRun hk hmark, Bool.or_eq_true, decide_eq_true_eq, immediateSize, if_pos hpush]
    exact Iff.or Iff.rfl (by omega)
  · rename_i hpush
    refine ⟨bits, rfl, hlen, fun i => ?_⟩
    rw [hnew, immediateSize, if_neg hpush]
    exact (or_iff_left (by omega)).symm

/-- Once the decode is past the code, `Marked` marks the push data. -/
theorem Marked.inPushData {k : ℕ} {bits : List (BitVec 64)} (hm : Marked code k bits)
    (hk : code.length ≤ decodePos code k) (i : ℕ) : bitAt bits i = true ↔ InPushData code i := by
  rw [hm.2]
  constructor
  · rintro ⟨m, -, hdata⟩
    exact ⟨m, hdata⟩
  · rintro ⟨m, hm, hdata⟩
    -- a decoded position inside the code comes before `k`
    refine ⟨m, ?_, hm, hdata⟩
    by_contra hkm
    have := (@decodePos_strictMono code).monotone (Nat.le_of_not_lt hkm)
    omega

/-- The loop from the `k`th decoded position, with fuel for the rest of the code, ends with the push data
marked. -/
theorem codeBitmapLoop_spec : ∀ fuel k (bits : List (BitVec 64)), Marked code k bits → code.length ≤ k + fuel →
    ∃ bits', codeBitmapLoop code fuel (decodePos code k) bits = some bits' ∧
      bits'.length = (code.length + 32 + 63) / 64 ∧ ∀ i, bitAt bits' i = true ↔ InPushData code i
  | 0, k, bits, hm, hfuel => ⟨bits, rfl, hm.1, hm.inPushData (by have := @le_decodePos code k; omega)⟩
  | fuel + 1, k, bits, hm, hfuel => by
    cases hop : code[decodePos code k]? with
    | none =>
      refine ⟨bits, by simp [codeBitmapLoop, hop], hm.1, hm.inPushData ?_⟩
      exact List.getElem?_eq_none_iff.1 hop
    | some op =>
      obtain ⟨bits', hstep, hm'⟩ := hm.step hop fuel
      rw [hstep]
      exact codeBitmapLoop_spec fuel (k + 1) bits' hm' (by omega)

/-- `codeBitmap` runs to the end and marks exactly the push data. -/
theorem codeBitmap_exact (code : List UInt8) :
    ∃ bits, codeBitmap code = some bits ∧ bits.length = (code.length + 32 + 63) / 64 ∧
      ∀ i, bitAt bits i = true ↔ InPushData code i :=
  codeBitmapLoop_spec code.length 0 _ marked_zero (by omega)

/-- A destination inside the code is read from the bitmap, as its bit cleared. -/
theorem isCodeFromAnalysis_of_length {bits : List (BitVec 64)} {udest : ℕ} (h : udest / 64 < bits.length) :
    isCodeFromAnalysis bits udest = some (!bitAt bits udest) := by
  unfold isCodeFromAnalysis bitAt
  rw [List.getElem?_eq_getElem h, Option.map_some, List.getD_eq_getElem?_getD, List.getElem?_eq_getElem h,
    Option.getD_some, and_shiftLeft_one_beq_zero _ (Nat.mod_lt _ (by decide))]

end Decode

/-! ### The shared analyses -/

section Cache

variable {Hash : Type} [DecidableEq Hash] (zeroHash : Hash) (codeOf : Hash → List UInt8)

/-- Every analysis of the shared map is the bitmap of the code of its hash. -/
def CacheSound (jumpdests : Hash → Option (List (BitVec 64))) : Prop :=
  ∀ h analysis, jumpdests h = some analysis → codeBitmap (codeOf h) = some analysis

/-- A contract whose code is the code of its hash, when it has one, and whose own analysis is the bitmap of
its code. -/
def Contract.Consistent (c : Contract Hash) : Prop :=
  (c.codeHash ≠ zeroHash → c.code = codeOf c.codeHash) ∧
    ∀ analysis, c.analysis = some analysis → codeBitmap c.code = some analysis

variable {zeroHash codeOf} {jumpdests : Hash → Option (List (BitVec 64))} {c : Contract Hash}

/-- `isCode` inside the code answers whether the destination is outside push data, from the map or from a
fresh analysis, and keeps the map sound and the contract consistent. -/
theorem isCode_spec (hsound : CacheSound codeOf jumpdests) (hc : c.Consistent zeroHash codeOf) {udest : ℕ}
    (hdest : udest < c.code.length) :
    ∃ r jumpdests' c', isCode zeroHash jumpdests c udest = some (r, jumpdests', c') ∧
      (r = true ↔ ¬ InPushData c.code udest) ∧ CacheSound codeOf jumpdests' ∧ c'.Consistent zeroHash codeOf := by
  obtain ⟨bits, hbits, hlen, hmark⟩ := codeBitmap_exact c.code
  have hread : isCodeFromAnalysis bits udest = some (!bitAt bits udest) :=
    isCodeFromAnalysis_of_length (by rw [hlen]; omega)
  have hr : (!bitAt bits udest) = true ↔ ¬ InPushData c.code udest := by
    rw [← hmark, Bool.not_eq_true', Bool.not_eq_true]
  have hc' : ({ c with analysis := some bits } : Contract Hash).Consistent zeroHash codeOf :=
    ⟨hc.1, fun a ha => by cases ha; exact hbits⟩
  unfold isCode
  split
  · -- a contract with a code hash: the shared map
    rename_i hhash
    have hcode := hc.1 hhash
    cases hj : jumpdests c.codeHash with
    | some a =>
      -- the stored analysis is the bitmap of this code
      have ha : a = bits := Option.some.inj ((hsound _ _ hj).symm.trans (hcode ▸ hbits))
      subst ha
      exact ⟨_, _, _, by simp [hread], hr, hsound, hc'⟩
    | none =>
      refine ⟨_, Function.update jumpdests c.codeHash (some bits), _, by simp [hbits, hread], hr, ?_, hc'⟩
      intro h a hh
      by_cases heq : h = c.codeHash
      · subst heq
        rw [Function.update_self, Option.some.injEq] at hh
        rw [← hh, ← hcode]
        exact hbits
      · rw [Function.update_of_ne heq] at hh
        exact hsound h a hh
  · -- init code: the contract's own analysis
    cases ha : c.analysis with
    | some a =>
      have ha' : a = bits := Option.some.inj ((hc.2 a ha).symm.trans hbits)
      subst ha'
      exact ⟨_, _, _, by simp [hread], hr, hsound, hc'⟩
    | none => exact ⟨_, _, _, by simp [hbits, hread], hr, hsound, hc'⟩

/-- `validJumpdest` on a consistent contract that does not skip the analysis answers exactly whether the
destination is a `JUMPDEST` at a decoded position, and keeps the map sound and the contract consistent. -/
theorem validJumpdest_spec (hsound : CacheSound codeOf jumpdests) (hc : c.Consistent zeroHash codeOf)
    (hskip : c.skipAnalysis = false) (hlen : c.code.length < u64) (dest : ℕ) :
    ∃ r jumpdests' c', validJumpdest zeroHash jumpdests c dest = some (r, jumpdests', c') ∧
      (r.1 = true ↔ ValidDest c.code dest) ∧ CacheSound codeOf jumpdests' ∧ c'.Consistent zeroHash codeOf := by
  unfold validJumpdest
  split_ifs with hout hop
  · refine ⟨_, _, _, rfl, ?_, hsound, hc⟩
    exact ⟨fun h => absurd h Bool.false_ne_true, fun h => by have := h.1; omega⟩
  · exact ⟨_, _, _, rfl, ⟨fun h => absurd h Bool.false_ne_true, fun h => absurd h.2.1 hop⟩, hsound, hc⟩
  · rw [hskip] at *
    contradiction
  · have hdest : dest < c.code.length := by omega
    obtain ⟨r, jumpdests', c', hcode, hr, hsound', hc'⟩ := isCode_spec hsound hc hdest
    refine ⟨_, _, _, by rw [hcode]; rfl, ?_, hsound', hc'⟩
    -- inside the code, being outside push data is being a decoded position
    rw [hr, ← isOpcodePos_iff_not_inPushData hdest]
    exact ⟨fun h => ⟨hdest, not_not.1 hop, h⟩, fun h => h.2.2⟩

/-- Every run of jumps on consistent contracts that do not skip the analysis, from a sound map: every
answer is exact, and the map stays sound. -/
theorem validJumpdests_spec : ∀ (calls : List (Contract Hash × ℕ)) {jumpdests : Hash → Option (List (BitVec 64))},
    CacheSound codeOf jumpdests →
    (∀ p ∈ calls, p.1.Consistent zeroHash codeOf ∧ p.1.skipAnalysis = false ∧ p.1.code.length < u64) →
    ∃ rs jumpdests', validJumpdests zeroHash jumpdests calls = some (rs, jumpdests') ∧
      List.Forall₂ (fun r p => r = true ↔ ValidDest p.1.code p.2) rs calls ∧ CacheSound codeOf jumpdests'
  | [], jumpdests, hsound, _ => ⟨[], jumpdests, rfl, List.Forall₂.nil, hsound⟩
  | (c, dest) :: calls, jumpdests, hsound, hcalls => by
    obtain ⟨hc, hskip, hlen⟩ := hcalls (c, dest) List.mem_cons_self
    obtain ⟨r, jumpdests₁, c₁, hstep, hr, hsound₁, -⟩ := validJumpdest_spec hsound hc hskip hlen dest
    obtain ⟨rs, jumpdests', hrun, hrs, hsound'⟩ :=
      validJumpdests_spec calls hsound₁ fun p hp => hcalls p (List.mem_cons_of_mem _ hp)
    exact ⟨r.1 :: rs, jumpdests', by simp [validJumpdests, hstep, hrun], List.Forall₂.cons hr hrs, hsound'⟩

/-- The analysis is exact: the bit of every position inside the code, as `isCodeFromAnalysis` reads it, is
set exactly in push data; and every run of jumps from a sound map on consistent contracts, with the analysis
read from the map or made afresh, accepts exactly the `JUMPDEST`s at decoded positions. -/
theorem validJumpdests_exact (zeroHash : Hash) (codeOf : Hash → List UInt8) :
    (∀ code : List UInt8, ∃ bits, codeBitmap code = some bits ∧
      ∀ i < code.length, (isCodeFromAnalysis bits i = some false ↔ InPushData code i)) ∧
    ∀ (calls : List (Contract Hash × ℕ)) (jumpdests : Hash → Option (List (BitVec 64))),
      CacheSound codeOf jumpdests →
      (∀ p ∈ calls, p.1.Consistent zeroHash codeOf ∧ p.1.skipAnalysis = false ∧ p.1.code.length < u64) →
      ∃ rs jumpdests', validJumpdests zeroHash jumpdests calls = some (rs, jumpdests') ∧
        List.Forall₂ (fun r p => r = true ↔ ValidDest p.1.code p.2) rs calls ∧ CacheSound codeOf jumpdests' := by
  refine ⟨fun code => ?_, fun calls _ hsound hcalls => validJumpdests_spec calls hsound hcalls⟩
  obtain ⟨bits, hbits, hlen, hmark⟩ := codeBitmap_exact code
  refine ⟨bits, hbits, fun i hi => ?_⟩
  rw [isCodeFromAnalysis_of_length (by rw [hlen]; omega), ← hmark, Option.some.injEq, Bool.not_eq_false']

end Cache

/-- `PUSH1 0x5b; JUMPDEST`: a `JUMPDEST` byte in push data, then a real one. -/
def pushedJumpdest : List UInt8 := [0x60, 0x5b, 0x5b]

/-- The contract of that code under code hash `1`, not yet analysed. -/
def pushedJumpdestContract : Contract ℕ := ⟨pushedJumpdest, 1, none, false⟩

theorem validJumpdests_exact_pushedJumpdest :
    (validJumpdests 0 (fun _ => none) [(pushedJumpdestContract, 1), (pushedJumpdestContract, 2)]).map Prod.fst =
        some [false, true] ∧
      ∃ rs jumpdests', validJumpdests 0 (fun _ => none) [(pushedJumpdestContract, 1), (pushedJumpdestContract, 2)] =
          some (rs, jumpdests') ∧
        List.Forall₂ (fun r p => r = true ↔ ValidDest p.1.code p.2) rs
          [(pushedJumpdestContract, 1), (pushedJumpdestContract, 2)] ∧
        CacheSound (fun _ => pushedJumpdest) jumpdests' :=
  ⟨by decide, (validJumpdests_exact 0 fun _ => pushedJumpdest).2 _ _ (fun _ _ h => by cases h) (by
    simp [pushedJumpdestContract, Contract.Consistent, pushedJumpdest, u64])⟩

end AmazeChain.Vm
