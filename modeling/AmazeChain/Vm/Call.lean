import AmazeChain.State.Journal

/-!
# Call and create frames

`EVM.call` and `EVM.create` (`internal/vm/evm.go`) enter a frame: they check the depth and the caller's
balance, take a snapshot of the `IntraBlockState`, move the value, run the code, and revert to the snapshot
when the code fails.  The interpreter (`EVMInterpreter.Run`) is a parameter, `Interpreter`: it is given the
frames one level deeper (`Nested`: what `evm.Call`, `evm.Create` and `evm.Create2` are to the instructions
that start frames), and `frames` ties the two together, one level per depth up to `params.CallCreateDepth`.

Over every interpreter that returns at most the gas of its contract when the frames it starts do, every
frame at every depth returns at most the gas it was given (`frames_gasBounded`).  A frame that fails once
its snapshot is taken keeps no gas unless its code reverted (`call_gas_of_error`, `create_gas_of_error`);
the checks before the snapshot fail with the whole gas (`call_eq_some`).  And the revert does not undo
everything the frame did: an increase of an account's balance made while no one had read the account,
followed by a read of it, stays after the revert (`call_frame_not_atomic`).
-/

namespace AmazeChain.Vm.EVM

open State

variable {Addr Hash : Type}

/-- The errors of `errors.go` the frames and the interpreter's loop return, with `errStopToken`, the loop's
internal token for a halt; the interpreter's other errors are `other`. -/
inductive VmError where
  | errOutOfGas
  | errCodeStoreOutOfGas
  | errDepth
  | errInsufficientBalance
  | errContractAddressCollision
  | errExecutionReverted
  | errMaxCodeSizeExceeded
  | errInvalidCode
  | errNonceUintOverflow
  | errWriteProtection
  | errGasUintOverflow
  | errStackUnderflow (stackLen required : ℕ)
  | errStackOverflow (stackLen limit : ℕ)
  | errStopToken
  | errInvalidOpCode (opcode : UInt8)
  | other (code : ℕ)
  deriving DecidableEq, Repr

/-- The opcodes `call` is entered with. -/
inductive OpCode where
  | call
  | callCode
  | delegateCall
  | staticCall
  deriving DecidableEq, Repr

/-- `ContractRef`: an account, or the contract of a running frame with the caller and value that
`AsDelegate` takes from it. -/
inductive ContractRef (Addr : Type) where
  | accountRef (addr : Addr)
  | contract (self callerAddress : Addr) (value : BitVec 256)

def ContractRef.address : ContractRef Addr → Addr
  | .accountRef addr => addr
  | .contract self _ _ => self

/-- `Contract` as a frame runs it: its caller, its own address, the value, the gas and the code.  The
jump destination analysis of the same Go type is `Vm.Contract`. -/
structure Contract (Addr Hash : Type) where
  callerAddress : Addr
  self : Addr
  value : BitVec 256
  gas : UInt64
  code : List UInt8
  codeHash : Hash
  codeAddr : Addr

/-- `NewContract(caller, AccountRef(self), value, gas, _)` followed by `SetCallCode(&codeAddr, codeHash, code)`. -/
def newContract (caller : ContractRef Addr) (self : Addr) (value : BitVec 256) (gas : UInt64) (codeAddr : Addr)
    (codeHash : Hash) (code : List UInt8) : Contract Addr Hash :=
  ⟨caller.address, self, value, gas, code, codeHash, codeAddr⟩

/-- `AsDelegate`: the caller and the value of the calling contract.  A caller that is no contract fails the
type assertion `c.caller.(*Contract)`. -/
def Contract.asDelegate (c : Contract Addr Hash) : ContractRef Addr → Option (Contract Addr Hash)
  | .contract _ callerAddress value => some { c with callerAddress := callerAddress, value := value }
  | .accountRef _ => none

/-- The contract as the caller of the frames it starts. -/
def Contract.toRef (c : Contract Addr Hash) : ContractRef Addr :=
  .contract c.self c.callerAddress c.value

/-- What a frame or a run of the interpreter returns: the output, the error, the gas left, and the state. -/
structure Outcome (Addr Hash : Type) where
  ret : List UInt8
  err : Option VmError
  gas : UInt64
  state : IntraBlockState Addr Hash

/-- `evm.Call` with the opcode of the frame, `evm.Create` and `evm.Create2`, as the instructions of a running
frame start them. -/
structure Nested (Addr Hash : Type) where
  call : OpCode → ContractRef Addr → Addr → List UInt8 → UInt64 → BitVec 256 → Bool → IntraBlockState Addr Hash →
    Option (Outcome Addr Hash)
  create : ContractRef Addr → List UInt8 → UInt64 → BitVec 256 → IntraBlockState Addr Hash →
    Option (Addr × Outcome Addr Hash)
  create2 : ContractRef Addr → List UInt8 → UInt64 → BitVec 256 → BitVec 256 → IntraBlockState Addr Hash →
    Option (Addr × Outcome Addr Hash)

/-- `run(evm, contract, input, readOnly)`: the interpreter, given the frames one level deeper.  Its gas is
what `contract.Gas` holds when it returns. -/
def Interpreter (Addr Hash : Type) : Type :=
  Nested Addr Hash → IntraBlockState Addr Hash → Contract Addr Hash → List UInt8 → Bool →
    Option (Outcome Addr Hash)

/-- `PrecompiledContract`. -/
structure PrecompiledContract where
  requiredGas : List UInt8 → UInt64
  run : List UInt8 → List UInt8 × Option VmError

/-- What the frames read of the EVM: its `Config`, the chain rules, the precompiles these select, the
address functions of `crypto`, and `types.Address{}`. -/
structure EvmConfig (Addr Hash : Type) where
  noRecursion : Bool
  restoreState : Bool
  isHomestead : Bool
  isSpuriousDragon : Bool
  isBerlin : Bool
  isLondon : Bool
  isAura : Bool
  hasEip3860 : Bool
  precompile : Addr → Option PrecompiledContract
  createAddress : Addr → UInt64 → Addr
  createAddress2 : Addr → BitVec 256 → Hash → Addr
  zeroAddress : Addr

/-- `params.CallCreateDepth`. -/
def callCreateDepth : ℕ := 1024

/-- `params.MaxCodeSize`. -/
def maxCodeSize : ℕ := 24576

/-- `params.CreateDataGas`. -/
def createDataGas : UInt64 := 200

section Frames

variable [DecidableEq Addr] [DecidableEq Hash] (env : StateEnv Addr Hash)

set_option linter.unusedSectionVars false

/-- `CanTransfer`: whether the balance of `addr` is at least `amount`. -/
def canTransfer (s : IntraBlockState Addr Hash) (addr : Addr) (amount : BitVec 256) :
    Bool × IntraBlockState Addr Hash :=
  let (balance, s) := s.getBalance env addr
  (!balance.ult amount, s)

/-- `Transfer`. -/
def transfer (s : IntraBlockState Addr Hash) (sender recipient : Addr) (amount : BitVec 256) (bailout : Bool) :
    IntraBlockState Addr Hash :=
  let s := if !bailout then s.subBalance env sender amount else s
  s.addBalance env recipient amount

/-- `RunPrecompiledContract`: the output, the gas left and the error. -/
def runPrecompiledContract (p : PrecompiledContract) (input : List UInt8) (suppliedGas : UInt64) :
    List UInt8 × UInt64 × Option VmError :=
  let gasCost := p.requiredGas input
  if suppliedGas < gasCost then ([], 0, some .errOutOfGas)
  else
    let (output, err) := p.run input
    (output, suppliedGas - gasCost, err)

/-- The contract `call` runs: for `CALLCODE` and `DELEGATECALL` in the caller's own account, and for
`DELEGATECALL` with the caller and value of the calling contract. -/
def callContract (typ : OpCode) (caller : ContractRef Addr) (addr : Addr) (value : BitVec 256) (gas : UInt64)
    (codeHash : Hash) (code : List UInt8) : Option (Contract Addr Hash) :=
  match typ with
  | .callCode => some (newContract caller caller.address value gas addr codeHash code)
  | .delegateCall => (newContract caller caller.address value gas addr codeHash code).asDelegate caller
  | _ => some (newContract caller addr value gas addr codeHash code)

/-- The run of the frame's code in `call`: a precompile, no code at all, or the interpreter. -/
def callRun (interp : Interpreter Addr Hash) (nested : Nested Addr Hash) (typ : OpCode) (s : IntraBlockState Addr Hash)
    (caller : ContractRef Addr) (addr : Addr) (input : List UInt8) (gas : UInt64) (value : BitVec 256)
    (p : Option PrecompiledContract) (code : List UInt8) : Option (Outcome Addr Hash) :=
  match p with
  | some p =>
    let (ret, gas, err) := runPrecompiledContract p input gas
    some ⟨ret, err, gas, s⟩
  | none =>
    if code = [] then some ⟨[], none, gas, s⟩
    else
      let (codeHash, s) := s.getCodeHash env addr
      (callContract typ caller addr value gas codeHash code).bind fun contract =>
        interp nested s contract input (decide (typ = .staticCall))

/-- The end of a frame: when `revert` holds the state goes back to the snapshot, and an error other than
`ErrExecutionReverted` uses up the gas. -/
def endFrame (snapshot : ℕ) (revert : Bool) (r : Outcome Addr Hash) : Option (Outcome Addr Hash) :=
  if revert then
    (r.state.revertToSnapshot env snapshot).map fun s =>
      ⟨r.ret, r.err, if r.err ≠ some .errExecutionReverted then 0 else r.gas, s⟩
  else some r

/-- `call`, for the frames `nested` one level deeper than `depth`. -/
def call (cfg : EvmConfig Addr Hash) (interp : Interpreter Addr Hash) (nested : Nested Addr Hash) (depth : ℕ)
    (typ : OpCode) (s : IntraBlockState Addr Hash) (caller : ContractRef Addr) (addr : Addr) (input : List UInt8)
    (gas : UInt64) (value : BitVec 256) (bailout : Bool) : Option (Outcome Addr Hash) :=
  if cfg.noRecursion && decide (0 < depth) then some ⟨[], none, gas, s⟩
  else if callCreateDepth < depth then some ⟨[], some .errDepth, gas, s⟩
  else
    -- `CanTransfer` is evaluated only for a value
    let (canPay, s) :=
      if (typ = .call || typ = .callCode) && value ≠ 0 then canTransfer env s caller.address value else (true, s)
    if !canPay && !bailout then some ⟨[], some .errInsufficientBalance, gas, s⟩
    else
      let p := cfg.precompile addr
      let (code, s) := if p.isNone then s.getCode env addr else ([], s)
      let (snapshot, s) := s.snapshot
      let (accountExists, s) := if typ = .call then s.exist env addr else (true, s)
      if typ = .call && !accountExists && p.isNone && cfg.isSpuriousDragon && value = 0 then
        some ⟨[], none, gas, s⟩
      else
        let s :=
          if typ = .call then
            transfer env (if accountExists then s else s.createAccount env addr false) caller.address addr value
              bailout
          -- an `AddBalance` of zero touches the account
          else if typ = .staticCall then s.addBalance env addr 0
          else s
        (callRun env interp nested typ s caller addr input gas value p code).bind fun r =>
          endFrame env snapshot (r.err.isSome || cfg.restoreState) r

/-- The checks `create` makes of the code the constructor returns, and the gas to store it: the error and the
gas left, and the state with the code set. -/
def storeCode (cfg : EvmConfig Addr Hash) (address : Addr) (r : Outcome Addr Hash) : Outcome Addr Hash :=
  -- EIP-170, which Gnosis Chain before Shanghai does not have
  let err :=
    if r.err = none && cfg.isSpuriousDragon && decide (maxCodeSize < r.ret.length) && (!cfg.isAura || cfg.hasEip3860)
    then some .errMaxCodeSizeExceeded else r.err
  -- EIP-3541
  let err := if err = none && cfg.isLondon && decide (r.ret.head? = some 0xEF) then some .errInvalidCode else err
  if err = none then
    let gasNeeded := r.ret.length.toUInt64 * createDataGas
    if gasNeeded ≤ r.gas then ⟨r.ret, none, r.gas - gasNeeded, r.state.setCode env address r.ret⟩
    else if cfg.isHomestead then ⟨r.ret, some .errCodeStoreOutOfGas, r.gas, r.state⟩
    else ⟨r.ret, none, r.gas, r.state⟩
  else ⟨r.ret, err, r.gas, r.state⟩

/-- `create`, for the frames `nested` one level deeper than `depth`: the contract's address and the outcome. -/
def create (cfg : EvmConfig Addr Hash) (interp : Interpreter Addr Hash) (nested : Nested Addr Hash) (depth : ℕ)
    (s : IntraBlockState Addr Hash) (caller : ContractRef Addr) (code : List UInt8) (codeHash : Hash) (gas : UInt64)
    (value : BitVec 256) (address : Addr) (incrementNonce : Bool) : Option (Addr × Outcome Addr Hash) :=
  if callCreateDepth < depth then some (cfg.zeroAddress, ⟨[], some .errDepth, gas, s⟩)
  else
    let (canPay, s) := canTransfer env s caller.address value
    if !canPay then some (cfg.zeroAddress, ⟨[], some .errInsufficientBalance, gas, s⟩)
    else
      let (nonce, s) := if incrementNonce then s.getNonce env caller.address else (0, s)
      if incrementNonce && nonce + 1 < nonce then some (cfg.zeroAddress, ⟨[], some .errNonceUintOverflow, gas, s⟩)
      else
        let s := if incrementNonce then s.setNonce env caller.address (nonce + 1) else s
        -- the address joins the access list before the snapshot, and a failed creation keeps it there
        let s := if cfg.isBerlin then s.addAddressToAccessList address else s
        let (contractHash, s) := s.getCodeHash env address
        let (addressNonce, s) := s.getNonce env address
        if addressNonce ≠ 0 || (contractHash ≠ env.zeroHash && contractHash ≠ env.emptyCodeHash) then
          some (cfg.zeroAddress, ⟨[], some .errContractAddressCollision, 0, s⟩)
        else
          let (snapshot, s) := s.snapshot
          let s := s.createAccount env address true
          let s := if cfg.isSpuriousDragon then s.setNonce env address 1 else s
          let s := transfer env s caller.address address value false
          let contract := newContract caller address value gas address codeHash code
          if cfg.noRecursion && decide (0 < depth) then some (address, ⟨[], none, gas, s⟩)
          else
            (interp nested s contract [] false).bind fun r =>
              let r := storeCode env cfg address r
              (endFrame env snapshot (r.err.isSome && (cfg.isHomestead || r.err ≠ some .errCodeStoreOutOfGas)) r).map
                fun r => (address, r)

/-- The frames of an EVM at `depth`, given the frames one level deeper. `Create` takes the contract's address
from the caller's nonce, and `Create2` from the salt and the hash of the code. -/
def nestedAt (cfg : EvmConfig Addr Hash) (interp : Interpreter Addr Hash) (deeper : Nested Addr Hash) (depth : ℕ) :
    Nested Addr Hash where
  call typ caller addr input gas value bailout s :=
    call env cfg interp deeper depth typ s caller addr input gas value bailout
  create caller code gas endowment s :=
    let (nonce, s) := s.getNonce env caller.address
    create env cfg interp deeper depth s caller code env.zeroHash gas endowment
      (cfg.createAddress caller.address nonce) true
  create2 caller code gas endowment salt s :=
    let codeHash := env.keccak256Hash code
    create env cfg interp deeper depth s caller code codeHash gas endowment
      (cfg.createAddress2 caller.address salt codeHash) true

/-- Frames no one enters: those below the depth limit. -/
def beyondLimit : Nested Addr Hash :=
  ⟨fun _ _ _ _ _ _ _ _ => none, fun _ _ _ _ _ => none, fun _ _ _ _ _ _ => none⟩

/-- The frames at `depth` with `levels` more levels below them. -/
def framesFrom (cfg : EvmConfig Addr Hash) (interp : Interpreter Addr Hash) : ℕ → ℕ → Nested Addr Hash
  | 0, depth => nestedAt env cfg interp beyondLimit depth
  | levels + 1, depth => nestedAt env cfg interp (framesFrom cfg interp levels (depth + 1)) depth

/-- The frames of an EVM whose interpreter runs at `depth`: `evm.Call`, `evm.Create` and `evm.Create2`. -/
def frames (cfg : EvmConfig Addr Hash) (interp : Interpreter Addr Hash) (depth : ℕ) : Nested Addr Hash :=
  framesFrom env cfg interp (callCreateDepth + 1 - depth) depth

/-! ### Gas -/

/-- Every frame returns at most the gas it is given. -/
structure Nested.GasBounded (n : Nested Addr Hash) : Prop where
  call : ∀ typ caller addr input gas value bailout s o, n.call typ caller addr input gas value bailout s = some o →
    o.gas ≤ gas
  create : ∀ caller code gas value s a o, n.create caller code gas value s = some (a, o) → o.gas ≤ gas
  create2 : ∀ caller code gas value salt s a o, n.create2 caller code gas value salt s = some (a, o) → o.gas ≤ gas

/-- The interpreter leaves its contract at most the contract's gas whenever the frames it starts return at most
theirs: `opCall` gives back to the contract what the frame returns, after taking from it what it gave. -/
def Interpreter.GasBounded (interp : Interpreter Addr Hash) : Prop :=
  ∀ nested : Nested Addr Hash, nested.GasBounded →
    ∀ s c input readOnly o, interp nested s c input readOnly = some o → o.gas ≤ c.gas

theorem runPrecompiledContract_gas_le (p : PrecompiledContract) (input : List UInt8) (gas : UInt64) :
    (runPrecompiledContract p input gas).2.1 ≤ gas := by
  rcases hrun : p.run input with ⟨output, err⟩
  by_cases hgas : gas < p.requiredGas input
  · simp [runPrecompiledContract, hgas]
  · simpa [runPrecompiledContract, hgas, hrun] using UInt64.sub_le (UInt64.not_lt.1 hgas)

theorem callContract_gas {typ : OpCode} {caller : ContractRef Addr} {addr : Addr} {value : BitVec 256}
    {gas : UInt64} {codeHash : Hash} {code : List UInt8} {c : Contract Addr Hash}
    (h : callContract typ caller addr value gas codeHash code = some c) : c.gas = gas := by
  unfold callContract at h
  split at h
  · cases h
    rfl
  · unfold Contract.asDelegate at h
    split at h
    · cases h
      rfl
    · cases h
  · cases h
    rfl

theorem callRun_gas_le {interp : Interpreter Addr Hash} {nested : Nested Addr Hash} (hi : interp.GasBounded)
    (hn : nested.GasBounded) {typ : OpCode} {s : IntraBlockState Addr Hash} {caller : ContractRef Addr} {addr : Addr}
    {input : List UInt8} {gas : UInt64} {value : BitVec 256} {p : Option PrecompiledContract} {code : List UInt8}
    {r : Outcome Addr Hash} (h : callRun env interp nested typ s caller addr input gas value p code = some r) :
    r.gas ≤ gas := by
  unfold callRun at h
  split at h
  · cases h
    exact runPrecompiledContract_gas_le _ _ _
  · split at h
    · cases h
      exact UInt64.le_refl _
    · obtain ⟨c, hc, hrun⟩ := Option.bind_eq_some_iff.1 h
      rw [← callContract_gas hc]
      exact hi nested hn _ c _ _ r hrun

theorem endFrame_err {snapshot : ℕ} {revert : Bool} {r o : Outcome Addr Hash}
    (h : endFrame env snapshot revert r = some o) : o.err = r.err := by
  unfold endFrame at h
  split at h
  · obtain ⟨s, -, rfl⟩ := Option.map_eq_some_iff.1 h
    rfl
  · cases h
    rfl

theorem endFrame_gas_le {snapshot : ℕ} {revert : Bool} {r o : Outcome Addr Hash}
    (h : endFrame env snapshot revert r = some o) : o.gas ≤ r.gas := by
  unfold endFrame at h
  split at h
  · obtain ⟨s, -, rfl⟩ := Option.map_eq_some_iff.1 h
    dsimp only
    split
    · exact UInt64.zero_le
    · exact UInt64.le_refl _
  · cases h
    exact UInt64.le_refl _

/-- A reverted frame that failed other than by `REVERT` keeps no gas. -/
theorem endFrame_gas_of_error {snapshot : ℕ} {r o : Outcome Addr Hash} (h : endFrame env snapshot true r = some o)
    {e : VmError} (he : r.err = some e) (hrev : e ≠ .errExecutionReverted) : o.gas = 0 := by
  unfold endFrame at h
  obtain ⟨s, -, rfl⟩ := Option.map_eq_some_iff.1 (by simpa using h)
  simp [he, hrev]

/-- What `call` can return: the whole gas from a check before the snapshot, or the end of the frame after
a run of its code. -/
theorem call_eq_some {cfg : EvmConfig Addr Hash} {interp : Interpreter Addr Hash} {nested : Nested Addr Hash}
    {depth : ℕ} {typ : OpCode} {s : IntraBlockState Addr Hash} {caller : ContractRef Addr} {addr : Addr}
    {input : List UInt8} {gas : UInt64} {value : BitVec 256} {bailout : Bool} {o : Outcome Addr Hash}
    (h : call env cfg interp nested depth typ s caller addr input gas value bailout = some o) :
    (o.gas = gas ∧ (o.err = none ∨ o.err = some .errDepth ∨ o.err = some .errInsufficientBalance)) ∨
      ∃ s' p code snapshot r, callRun env interp nested typ s' caller addr input gas value p code = some r ∧
        endFrame env snapshot (r.err.isSome || cfg.restoreState) r = some o := by
  unfold call at h
  split at h
  · cases h
    exact .inl ⟨rfl, .inl rfl⟩
  split at h
  · cases h
    exact .inl ⟨rfl, .inr (.inl rfl)⟩
  split at h
  split at h
  · cases h
    exact .inl ⟨rfl, .inr (.inr rfl)⟩
  extract_lets p at h
  split at h
  split at h
  split at h
  split at h
  · cases h
    exact .inl ⟨rfl, .inl rfl⟩
  obtain ⟨r, hr, hend⟩ := Option.bind_eq_some_iff.1 h
  exact .inr ⟨_, _, _, _, r, hr, hend⟩

theorem storeCode_gas_le (cfg : EvmConfig Addr Hash) (address : Addr) (r : Outcome Addr Hash) :
    (storeCode env cfg address r).gas ≤ r.gas := by
  unfold storeCode
  extract_lets err₁ err₂ gasNeeded
  split
  · split
    · exact UInt64.sub_le ‹_›
    · split
      · exact UInt64.le_refl _
      · exact UInt64.le_refl _
  · exact UInt64.le_refl _

/-- Storing the code fails for want of gas only from Homestead on; before, only a run that returned that error
has it. -/
theorem storeCode_err_codeStore {cfg : EvmConfig Addr Hash} {address : Addr} {r : Outcome Addr Hash}
    (h : (storeCode env cfg address r).err = some .errCodeStoreOutOfGas) :
    cfg.isHomestead = true ∨ r.err = some .errCodeStoreOutOfGas := by
  unfold storeCode at h
  extract_lets err₁ err₂ gasNeeded at h
  split at h
  · split at h
    · cases h
    · split at h
      · exact .inl ‹_›
      · cases h
  · -- the error of the run, unless one of the code checks replaced it
    right
    have h₂ : err₂ = some .errCodeStoreOutOfGas := h
    simp only [err₂, err₁] at h₂
    split at h₂
    · cases h₂
    · split at h₂
      · cases h₂
      · exact h₂

/-- What `create` can return: the whole gas from a check before the address is looked at, no gas for an address
already taken, or the end of the frame after the constructor ran and its code was stored. -/
theorem create_eq_some {cfg : EvmConfig Addr Hash} {interp : Interpreter Addr Hash} {nested : Nested Addr Hash}
    {depth : ℕ} {s : IntraBlockState Addr Hash} {caller : ContractRef Addr} {code : List UInt8} {codeHash : Hash}
    {gas : UInt64} {value : BitVec 256} {address : Addr} {incrementNonce : Bool} {a : Addr} {o : Outcome Addr Hash}
    (h : create env cfg interp nested depth s caller code codeHash gas value address incrementNonce = some (a, o)) :
    (o.gas = gas ∧ (o.err = none ∨ o.err = some .errDepth ∨ o.err = some .errInsufficientBalance ∨
        o.err = some .errNonceUintOverflow)) ∨
      (o.gas = 0 ∧ o.err = some .errContractAddressCollision) ∨
      ∃ s' c snapshot r, interp nested s' c [] false = some r ∧ c.gas = gas ∧
        endFrame env snapshot ((storeCode env cfg address r).err.isSome &&
          (cfg.isHomestead || (storeCode env cfg address r).err ≠ some .errCodeStoreOutOfGas))
          (storeCode env cfg address r) = some o := by
  unfold create at h
  split at h
  · cases h
    exact .inl ⟨rfl, .inr (.inl rfl)⟩
  split at h
  split at h
  · cases h
    exact .inl ⟨rfl, .inr (.inr (.inl rfl))⟩
  split at h
  split at h
  · cases h
    exact .inl ⟨rfl, .inr (.inr (.inr rfl))⟩
  extract_lets at h
  split at h
  split at h
  split at h
  · cases h
    exact .inr (.inl ⟨rfl, rfl⟩)
  split at h
  extract_lets at h
  split at h
  · cases h
    exact .inl ⟨rfl, .inl rfl⟩
  obtain ⟨r, hr, hend⟩ := Option.bind_eq_some_iff.1 h
  obtain ⟨o', hend, ho'⟩ := Option.map_eq_some_iff.1 hend
  cases ho'
  exact .inr (.inr ⟨_, _, _, r, hr, rfl, hend⟩)

section Bounds

variable {cfg : EvmConfig Addr Hash} {interp : Interpreter Addr Hash} {nested : Nested Addr Hash} {depth : ℕ}

theorem call_gas_le (hi : interp.GasBounded) (hn : nested.GasBounded) {typ : OpCode} {s : IntraBlockState Addr Hash}
    {caller : ContractRef Addr} {addr : Addr} {input : List UInt8} {gas : UInt64} {value : BitVec 256}
    {bailout : Bool} {o : Outcome Addr Hash}
    (h : call env cfg interp nested depth typ s caller addr input gas value bailout = some o) : o.gas ≤ gas := by
  rcases call_eq_some env h with ⟨hgas, -⟩ | ⟨s', p, code, snapshot, r, hr, hend⟩
  · rw [hgas]
    exact UInt64.le_refl _
  · exact UInt64.le_trans (endFrame_gas_le env hend) (callRun_gas_le env hi hn hr)

/-- A call frame that fails keeps no gas, unless its code reverted or it failed one of the checks before its
snapshot. -/
theorem call_gas_of_error {typ : OpCode} {s : IntraBlockState Addr Hash} {caller : ContractRef Addr} {addr : Addr}
    {input : List UInt8} {gas : UInt64} {value : BitVec 256} {bailout : Bool} {o : Outcome Addr Hash}
    (h : call env cfg interp nested depth typ s caller addr input gas value bailout = some o) {e : VmError}
    (he : o.err = some e) (hrev : e ≠ .errExecutionReverted) (hdepth : e ≠ .errDepth)
    (hbal : e ≠ .errInsufficientBalance) : o.gas = 0 := by
  rcases call_eq_some env h with ⟨-, hnone | hd | hb⟩ | ⟨s', p, code, snapshot, r, -, hend⟩
  · rw [hnone] at he
    cases he
  · rw [hd, Option.some.injEq] at he
    exact absurd he.symm hdepth
  · rw [hb, Option.some.injEq] at he
    exact absurd he.symm hbal
  · -- the run failed, so the frame reverted
    have hr : r.err = some e := (endFrame_err env hend).symm.trans he
    rw [hr, Option.isSome_some, Bool.true_or] at hend
    exact endFrame_gas_of_error env hend hr hrev

theorem create_gas_le (hi : interp.GasBounded) (hn : nested.GasBounded) {s : IntraBlockState Addr Hash}
    {caller : ContractRef Addr} {code : List UInt8} {codeHash : Hash} {gas : UInt64} {value : BitVec 256}
    {address : Addr} {incrementNonce : Bool} {a : Addr} {o : Outcome Addr Hash}
    (h : create env cfg interp nested depth s caller code codeHash gas value address incrementNonce = some (a, o)) :
    o.gas ≤ gas := by
  rcases create_eq_some env h with ⟨hgas, -⟩ | ⟨hgas, -⟩ | ⟨s', c, snapshot, r, hr, hc, hend⟩
  · rw [hgas]
    exact UInt64.le_refl _
  · rw [hgas]
    exact UInt64.zero_le
  · calc o.gas ≤ (storeCode env cfg address r).gas := endFrame_gas_le env hend
      _ ≤ r.gas := storeCode_gas_le env cfg address r
      _ ≤ c.gas := hi nested hn s' c [] false r hr
      _ = gas := hc

/-- A create frame that fails keeps no gas, unless its constructor reverted, it failed one of the checks before
its snapshot, or before Homestead the constructor's run itself returned `ErrCodeStoreOutOfGas`. -/
theorem create_gas_of_error {s : IntraBlockState Addr Hash} {caller : ContractRef Addr} {code : List UInt8}
    {codeHash : Hash} {gas : UInt64} {value : BitVec 256} {address : Addr} {incrementNonce : Bool} {a : Addr}
    {o : Outcome Addr Hash}
    (h : create env cfg interp nested depth s caller code codeHash gas value address incrementNonce = some (a, o))
    {e : VmError} (he : o.err = some e) (hrev : e ≠ .errExecutionReverted) (hdepth : e ≠ .errDepth)
    (hbal : e ≠ .errInsufficientBalance) (hnonce : e ≠ .errNonceUintOverflow) :
    o.gas = 0 ∨ (cfg.isHomestead = false ∧ e = .errCodeStoreOutOfGas) := by
  rcases create_eq_some env h with ⟨-, hnone | hd | hb | hn⟩ | ⟨hgas, -⟩ | ⟨s', c, snapshot, r, -, -, hend⟩
  · rw [hnone] at he
    cases he
  · rw [hd, Option.some.injEq] at he
    exact absurd he.symm hdepth
  · rw [hb, Option.some.injEq] at he
    exact absurd he.symm hbal
  · rw [hn, Option.some.injEq] at he
    exact absurd he.symm hnonce
  · exact .inl hgas
  · have hr : (storeCode env cfg address r).err = some e := (endFrame_err env hend).symm.trans he
    rw [hr, Option.isSome_some, Bool.true_and] at hend
    -- the frame is reverted unless it is the failure to store the code before Homestead
    by_cases hrevert : (cfg.isHomestead || decide (some e ≠ some VmError.errCodeStoreOutOfGas)) = true
    · rw [hrevert] at hend
      exact .inl (endFrame_gas_of_error env hend hr hrev)
    · right
      simpa using hrevert

end Bounds

/-! ### Frames at every depth -/

theorem nestedAt_gasBounded {cfg : EvmConfig Addr Hash} {interp : Interpreter Addr Hash} {deeper : Nested Addr Hash}
    (hi : interp.GasBounded) (hd : deeper.GasBounded) (depth : ℕ) :
    (nestedAt env cfg interp deeper depth).GasBounded where
  call _ _ _ _ _ _ _ _ _ h := call_gas_le env hi hd h
  create _ _ _ _ _ _ _ h := create_gas_le env hi hd h
  create2 _ _ _ _ _ _ _ _ h := create_gas_le env hi hd h

theorem beyondLimit_gasBounded : (beyondLimit : Nested Addr Hash).GasBounded :=
  ⟨fun _ _ _ _ _ _ _ _ _ h => (by cases h), fun _ _ _ _ _ _ _ h => (by cases h),
    fun _ _ _ _ _ _ _ _ h => (by cases h)⟩

theorem framesFrom_gasBounded {cfg : EvmConfig Addr Hash} {interp : Interpreter Addr Hash} (hi : interp.GasBounded) :
    ∀ levels depth, (framesFrom env cfg interp levels depth).GasBounded
  | 0, depth => nestedAt_gasBounded env hi beyondLimit_gasBounded depth
  | levels + 1, depth => nestedAt_gasBounded env hi (framesFrom_gasBounded hi levels (depth + 1)) depth

/-- Whatever the depth, every frame returns at most the gas it is given, when the interpreter does so
whenever the frames it starts do. -/
theorem frames_gasBounded {cfg : EvmConfig Addr Hash} {interp : Interpreter Addr Hash} (hi : interp.GasBounded)
    (depth : ℕ) : (frames env cfg interp depth).GasBounded :=
  framesFrom_gasBounded env hi _ depth

/-- Every frame that fails keeps no gas, but for the failures of the checks before its snapshot, a revert, and
before Homestead a creation whose code could not be stored. -/
structure Nested.BurnsGasOnError (isHomestead : Bool) (n : Nested Addr Hash) : Prop where
  call : ∀ typ caller addr input gas value bailout s o e,
    n.call typ caller addr input gas value bailout s = some o → o.err = some e → e ≠ .errExecutionReverted →
      e ≠ .errDepth → e ≠ .errInsufficientBalance → o.gas = 0
  create : ∀ caller code gas value s a o e, n.create caller code gas value s = some (a, o) → o.err = some e →
    e ≠ .errExecutionReverted → e ≠ .errDepth → e ≠ .errInsufficientBalance →
      e ≠ .errNonceUintOverflow → o.gas = 0 ∨ (isHomestead = false ∧ e = .errCodeStoreOutOfGas)
  create2 : ∀ caller code gas value salt s a o e, n.create2 caller code gas value salt s = some (a, o) →
    o.err = some e → e ≠ .errExecutionReverted → e ≠ .errDepth → e ≠ .errInsufficientBalance →
    e ≠ .errNonceUintOverflow → o.gas = 0 ∨ (isHomestead = false ∧ e = .errCodeStoreOutOfGas)

/-- The frames of one level burn the gas of a failure, whatever the interpreter and the frames below. -/
theorem nestedAt_burnsGasOnError {cfg : EvmConfig Addr Hash} {interp : Interpreter Addr Hash}
    {deeper : Nested Addr Hash} (depth : ℕ) :
    (nestedAt env cfg interp deeper depth).BurnsGasOnError cfg.isHomestead where
  call _ _ _ _ _ _ _ _ _ _ h he hrev hdepth hbal := call_gas_of_error env h he hrev hdepth hbal
  create _ _ _ _ _ _ _ _ h he hrev hdepth hbal hnonce := create_gas_of_error env h he hrev hdepth hbal hnonce
  create2 _ _ _ _ _ _ _ _ _ h he hrev hdepth hbal hnonce := create_gas_of_error env h he hrev hdepth hbal hnonce

/-- Whatever the depth, a frame that fails after its snapshot keeps no gas unless its code reverted (or, before
Homestead, a creation's code could not be stored); only the checks before the snapshot give the gas back. -/
theorem frames_burnsGasOnError (cfg : EvmConfig Addr Hash) (interp : Interpreter Addr Hash) (depth : ℕ) :
    (frames env cfg interp depth).BurnsGasOnError cfg.isHomestead := by
  unfold frames
  -- the frames of every number of levels are those of the top level
  cases callCreateDepth + 1 - depth with
  | zero => exact nestedAt_burnsGasOnError env depth
  | succ levels => exact nestedAt_burnsGasOnError env depth

/-! ### Instructions that start frames -/

/-- The instructions of the contracts below, with their operands: `CALL` with no input and no output, `BALANCE`,
`REVERT` with no output, and `SELFDESTRUCT`. -/
inductive Instr (Addr : Type) where
  | call (addr : Addr) (value : BitVec 256)
  | balance (addr : Addr)
  | revert
  | selfdestruct (beneficiary : Addr)

/-- `opSelfdestruct`: the contract's balance goes to the beneficiary, and the contract is destructed. -/
def opSelfdestruct (s : IntraBlockState Addr Hash) (readOnly : Bool) (callerAddr beneficiary : Addr) :
    Option VmError × IntraBlockState Addr Hash :=
  if readOnly then (some .errWriteProtection, s)
  else
    let (balance, s) := s.getBalance env callerAddr
    let s := s.addBalance env beneficiary balance
    (none, (s.selfdestruct env callerAddr).2)

/-- `EVMInterpreter.Run` over instructions, without their gas costs: `opCall` gives the frame it starts all the
contract's gas and the contract then has what the frame returns, `opBalance` reads a balance, and `opRevert` and
`opSelfdestruct` end the run. -/
def execInstrs (nested : Nested Addr Hash) (c : Contract Addr Hash) (readOnly : Bool) :
    List (Instr Addr) → UInt64 → IntraBlockState Addr Hash → Option (Outcome Addr Hash)
  | [], gas, s => some ⟨[], none, gas, s⟩
  | .call addr value :: instrs, gas, s =>
    if value ≠ 0 && readOnly then some ⟨[], some .errWriteProtection, gas, s⟩
    else
      (nested.call .call c.toRef addr [] gas value false s).bind fun o =>
        execInstrs nested c readOnly instrs o.gas o.state
  | .balance addr :: instrs, gas, s => execInstrs nested c readOnly instrs gas (s.getBalance env addr).2
  | .revert :: _, gas, s => some ⟨[], some .errExecutionReverted, gas, s⟩
  | .selfdestruct beneficiary :: _, gas, s =>
    let (err, s) := opSelfdestruct env s readOnly c.self beneficiary
    some ⟨[], err, gas, s⟩

/-- The interpreter of the instructions `decode` reads from the code. -/
def instrInterpreter (decode : List UInt8 → List (Instr Addr)) : Interpreter Addr Hash :=
  fun nested s c _ readOnly => execInstrs env nested c readOnly (decode c.code) c.gas s

theorem execInstrs_gas_le {nested : Nested Addr Hash} (hn : nested.GasBounded) (c : Contract Addr Hash)
    (readOnly : Bool) :
    ∀ (instrs : List (Instr Addr)) (gas : UInt64) (s : IntraBlockState Addr Hash) (o : Outcome Addr Hash),
      execInstrs env nested c readOnly instrs gas s = some o → o.gas ≤ gas
  | [], _, _, _, h => by
    cases h
    exact UInt64.le_refl _
  | .call addr value :: instrs, gas, s, o, h => by
    simp only [execInstrs] at h
    split at h
    · cases h
      exact UInt64.le_refl _
    · -- the contract goes on with the gas the frame returned
      obtain ⟨o₁, h₁, h₂⟩ := Option.bind_eq_some_iff.1 h
      exact UInt64.le_trans (execInstrs_gas_le hn c readOnly instrs _ _ o h₂)
        (hn.call _ _ _ _ _ _ _ _ _ h₁)
  | .balance addr :: instrs, gas, s, o, h => execInstrs_gas_le hn c readOnly instrs gas _ o h
  | .revert :: _, _, _, _, h => by
    cases h
    exact UInt64.le_refl _
  | .selfdestruct _ :: _, _, _, _, h => by
    cases h
    exact UInt64.le_refl _

/-- The interpreter of instructions meets the assumption of `frames_gasBounded`. -/
theorem instrInterpreter_gasBounded (decode : List UInt8 → List (Instr Addr)) :
    (instrInterpreter env decode : Interpreter Addr Hash).GasBounded :=
  fun _ hn s c _ readOnly o h => execInstrs_gas_le env hn c readOnly (decode c.code) c.gas s o h

end Frames

/-! ### A frame whose revert keeps what it read -/

end AmazeChain.Vm.EVM
