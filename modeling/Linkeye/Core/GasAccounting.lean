import Linkeye.Core.FailedTransactions

/-!
# Gas and fees of a block

`core/gaspool.go`, `TransitionDb` with its helpers and the loop of `Process`, with the
64-bit arithmetic of the source: additions and subtractions wrap, and `AddGas` panics
where the pool would.  The virtual machine is any step that keeps the sum of the balances
and returns no more gas than it was given.
-/

set_option autoImplicit false

namespace Linkeye.Core.GasAccounting

open Common.Types Dpos
open FailedTransactions (dbftEnv beforeRevert stakingTx)
open StateProcessor Core.StateTransition Transaction Lib.Totals

def supply (w : World) : Int := total w.statedb.balances

structure EvmResult where
  world : World
  gas : UInt64
  err : Option VmError
  suicided : List Address

structure Evm where
  create : World → Address → Bytes → UInt64 → Int → EvmResult
  call : World → Address → Address → Bytes → UInt64 → Int → EvmResult
  supply_create : ∀ w caller code gas value,
    supply (create w caller code gas value).world = supply w
  supply_call : ∀ w caller addr input gas value,
    supply (call w caller addr input gas value).world = supply w
  gas_create : ∀ w caller code gas value, (create w caller code gas value).gas ≤ gas
  gas_call : ∀ w caller addr input gas value, (call w caller addr input gas value).gas ≤ gas

/-! ## The gas pool -/

abbrev GasPool := UInt64

/-- `none` is the panic. -/
def GasPool.addGas (gp : GasPool) (amount : UInt64) : Option GasPool :=
  if maxUint64 - amount.toNat < gp.toNat then none else some (gp + amount)

/-- `none` is `ErrGasLimitReached`. -/
def GasPool.subGas (gp : GasPool) (amount : UInt64) : Option GasPool :=
  if gp < amount then none else some (gp - amount)

/-! ## `TransitionDb` -/

inductive Failure where
  | refused (err : TxError)
  | panicked

structure StateTransition where
  gp : GasPool
  gas : UInt64
  initialGas : UInt64
  world : World

def newStateTransition (world : World) (gp : GasPool) : StateTransition := ⟨gp, 0, 0, world⟩

def gasLimit (msg : TxMessage) : UInt64 := UInt64.ofNat msg.gas

def charge (msg : TxMessage) (gas : UInt64) : Int := gas.toNat * msg.gasPrice

namespace StateTransition

def useGas (st : StateTransition) (amount : UInt64) : Except Failure StateTransition :=
  if st.gas < amount then .error (.refused .errOutOfGas)
  else .ok { st with gas := st.gas - amount }

def buyGas (st : StateTransition) (msg : TxMessage) : Except Failure StateTransition :=
  let mgval := charge msg (gasLimit msg)
  if st.world.getBalance msg.sender < mgval then .error (.refused .errInsufficientBalanceForGas)
  else
    match st.gp.subGas (gasLimit msg) with
    | none => .error (.refused .errGasLimitReached)
    | some gp =>
      .ok { gp := gp
            gas := st.gas + gasLimit msg
            initialGas := gasLimit msg
            world := st.world.subBalance msg.sender mgval }

def preCheck (st : StateTransition) (msg : TxMessage) : Except Failure StateTransition :=
  if msg.checkNonce = true ∧ st.world.getNonce msg.sender < msg.nonce then
    .error (.refused .errNonceTooHigh)
  else if msg.checkNonce = true ∧ msg.nonce < st.world.getNonce msg.sender then
    .error (.refused .errNonceTooLow)
  else st.buyGas msg

def gasUsed (st : StateTransition) : UInt64 := st.initialGas - st.gas

/-- The refund counter, capped to half of the used gas. -/
def refund (st : StateTransition) : UInt64 :=
  let counter := UInt64.ofNat st.world.refund
  let half := st.gasUsed / 2
  if counter < half then counter else half

def refundGas (st : StateTransition) : Except Failure StateTransition :=
  match st.gp.addGas (st.gas + st.refund) with
  | none => .error .panicked
  | some gp => .ok { st with gas := st.gas + st.refund, gp := gp }

end StateTransition

/-- What a message leaves: the transition, whether the execution failed, and the accounts
that it marked for deletion. -/
structure Done where
  st : StateTransition
  failed : Bool
  suicided : List Address

section
variable (env : Env) (evm : Evm)

/-- The run of the virtual machine; a call raises the nonce itself. -/
def runEvm (w : World) (msg : TxMessage) (gas : UInt64) : EvmResult :=
  match msg.recipient with
  | none => evm.create w msg.sender msg.data gas msg.amount
  | some recipient =>
    evm.call (w.setNonce msg.sender ((w.getNonce msg.sender + 1) % 2 ^ 64)) msg.sender recipient
      msg.data gas msg.amount

def payIntrinsicGas (st : StateTransition) (msg : TxMessage) : Except Failure StateTransition :=
  match intrinsicGas msg.data msg.recipient.isNone (env.config.isHomestead env.number) with
  | none => .error (.refused .errOutOfGas)
  | some gas => st.useGas (UInt64.ofNat gas)

/-- The end of `TransitionDb`: the whole gas limit is paid to the coinbase. -/
def settle (st : StateTransition) (msg : TxMessage) (result : EvmResult) : Except Failure Done :=
  if result.err = some .errInsufficientBalance then .error (.refused .errInsufficientBalance)
  else
    ({ st with gas := result.gas, world := result.world } : StateTransition).refundGas.map fun st =>
      { st := { st with world := st.world.addBalance env.coinbase (charge msg st.initialGas) }
        failed := result.err.isSome
        suicided := result.suicided }

def transitionDb (w : World) (msg : TxMessage) (gp : GasPool) : Except Failure Done := do
  let st ← (newStateTransition w gp).preCheck msg
  let st ← payIntrinsicGas env st msg
  settle env st msg (runEvm evm st.world msg st.gas)

/-! ## `ApplyTransaction` and `Process` -/

/-- The receipt without root, logs and bloom. -/
structure Receipt where
  failed : Bool
  cumulativeGasUsed : UInt64
  gasUsed : UInt64
  contractAddress : Option Address

structure Processed where
  dc : DposContext
  world : World
  gp : GasPool
  usedGas : UInt64
  receipts : List Receipt

def applyTransaction (p : Processed) (tx : TxData) : Except Failure Processed :=
  match asMessage env.crypto (makeSigner env.config env.number) tx with
  | .error err => .error (.refused (.sender err))
  | .ok msg =>
    if msg.recipient = none ∧ msg.txType ≠ .binary then .error (.refused .errInvalidType)
    else
      match transitionDb env evm p.world msg p.gp with
      | .error err => .error err
      | .ok done =>
        match stakingStep env p.dc done.st.world.statedb msg with
        | .error err => .error (.refused err)
        | .ok (dc, statedb) =>
          let usedGas := p.usedGas + done.st.gasUsed
          .ok
            { dc := dc
              world := { done.st.world with statedb := statedb }.finalise done.suicided
              gp := done.st.gp
              usedGas := usedGas
              receipts := p.receipts ++
                [{ failed := done.failed
                   cumulativeGasUsed := usedGas
                   gasUsed := done.st.gasUsed
                   contractAddress :=
                     if msg.recipient = none then
                       some (createAddress env.crypto msg.sender tx.accountNonce.toNat)
                     else none }] }

def processFrom : List TxData → Processed → Except Failure Processed
  | [], p => .ok p
  | tx :: rest, p =>
    match applyTransaction env evm p tx with
    | .error err => .error err
    | .ok p => processFrom rest p

def process (blockGasLimit : UInt64) (dc : DposContext) (w : World) (txs : List TxData) :
    Except Failure Processed :=
  match GasPool.addGas 0 blockGasLimit with
  | none => .error .panicked
  | some gp => processFrom env evm txs ⟨dc, w, gp, 0, []⟩

end

/-! ## Sums of balances -/

section
variable (w : World) (addr : Address)

theorem supply_addBalance (amount : Int) :
    supply (w.addBalance addr amount) = supply w + amount := by
  rw [supply, World.addBalance, StateDB.addBalance, total_setBalance, supply]
  omega

theorem supply_subBalance (amount : Int) :
    supply (w.subBalance addr amount) = supply w - amount := by
  rw [supply, World.subBalance, StateDB.subBalance, total_setBalance, supply]
  omega

theorem supply_setNonce (nonce : Nat) : supply (w.setNonce addr nonce) = supply w :=
  (supply_addBalance w addr 0).trans (Int.add_zero _)

end

/-! ## One message -/

variable {gp : GasPool} {st : StateTransition} {p : Processed} {limit : UInt64} {result : RunResult}

section
variable {env : Env} {evm : Evm} {w : World} {msg : TxMessage}

theorem exists_of_bind_ok {ε α β : Type} {action : Except ε α} {next : α → Except ε β} {result : β}
    (ok : (action >>= next) = .ok result) : ∃ a, action = .ok a ∧ next a = .ok result := by
  cases action with
  | error _ => cases ok
  | ok a => exact ⟨a, rfl, ok⟩

theorem supply_runEvm (gas : UInt64) : supply (runEvm evm w msg gas).world = supply w := by
  unfold runEvm
  cases msg.recipient with
  | none => exact evm.supply_create _ _ _ _ _
  | some recipient => exact (evm.supply_call _ _ _ _ _ _).trans (supply_setNonce w _ _)

theorem gas_runEvm (gas : UInt64) : (runEvm evm w msg gas).gas ≤ gas := by
  unfold runEvm
  cases msg.recipient with
  | none => exact evm.gas_create _ _ _ _ _
  | some recipient => exact evm.gas_call _ _ _ _ _ _

theorem preCheck_ok (ok : (newStateTransition w gp).preCheck msg = .ok st) :
    gasLimit msg ≤ gp ∧ st = { gp := gp - gasLimit msg
                               gas := gasLimit msg
                               initialGas := gasLimit msg
                               world := w.subBalance msg.sender (charge msg (gasLimit msg)) } := by
  unfold StateTransition.preCheck StateTransition.buyGas GasPool.subGas newStateTransition at ok
  split at ok
  · cases ok
  · split at ok
    · cases ok
    · dsimp only at ok
      split at ok
      · cases ok
      · by_cases short : gp < gasLimit msg
        · rw [if_pos short] at ok
          cases ok
        · rw [if_neg short] at ok
          cases ok
          refine ⟨UInt64.not_lt.mp short, ?_⟩
          rw [UInt64.zero_add]

theorem payIntrinsicGas_ok {paid : StateTransition} (ok : payIntrinsicGas env st msg = .ok paid) :
    ∃ gas ≤ st.gas, paid = { st with gas := gas } := by
  unfold payIntrinsicGas StateTransition.useGas at ok
  split at ok
  · cases ok
  · rename_i amount _
    split at ok
    · cases ok
    · rename_i enough
      cases ok
      refine ⟨st.gas - UInt64.ofNat amount, ?_, rfl⟩
      rw [UInt64.le_iff_toNat_le, UInt64.toNat_sub_of_le _ _ (UInt64.not_lt.mp enough)]
      exact Nat.sub_le _ _

theorem addGas_ok {added : GasPool} {amount : UInt64} (ok : gp.addGas amount = some added) :
    added = gp + amount := by
  unfold GasPool.addGas at ok
  split at ok
  · cases ok
  · exact (Option.some.inj ok).symm

theorem toNat_add_of_lt {a b : UInt64} (fits : a.toNat + b.toNat < 2 ^ 64) :
    (a + b).toNat = a.toNat + b.toNat := by
  rw [UInt64.toNat_add]
  exact Nat.mod_eq_of_lt fits

theorem toNat_gasUsed (st : StateTransition) (within : st.gas ≤ st.initialGas) :
    st.gasUsed.toNat = st.initialGas.toNat - st.gas.toNat :=
  UInt64.toNat_sub_of_le _ _ within

theorem refund_le_half (st : StateTransition) : st.refund.toNat ≤ st.gasUsed.toNat / 2 := by
  have halved : (st.gasUsed / 2).toNat = st.gasUsed.toNat / 2 := UInt64.toNat_div _ _
  unfold StateTransition.refund
  dsimp only
  rw [← halved]
  split
  · rename_i less
    exact Nat.le_of_lt (UInt64.lt_iff_toNat_lt.mp less)
  · exact le_refl _

theorem refundGas_eq {refunded : StateTransition} (ok : st.refundGas = .ok refunded) :
    refunded = { st with gas := st.gas + st.refund, gp := st.gp + (st.gas + st.refund) } := by
  unfold StateTransition.refundGas at ok
  split at ok
  · cases ok
  · rename_i gp added
    rw [← addGas_ok added]
    exact (Except.ok.inj ok).symm

/-- The refund takes back at most half of the gas used, so nothing wraps. -/
theorem refundGas_ok {refunded : StateTransition} (within : st.gas ≤ st.initialGas)
    (fits : st.gp.toNat + st.initialGas.toNat < 2 ^ 64) (ok : st.refundGas = .ok refunded) :
    refunded.world = st.world ∧ refunded.initialGas = st.initialGas ∧
      refunded.gp.toNat + refunded.gasUsed.toNat = st.gp.toNat + st.initialGas.toNat := by
  have same := refundGas_eq ok
  have gas : refunded.gas = st.gas + st.refund := by rw [same]
  have limit : refunded.initialGas = st.initialGas := by rw [same]
  have pool : refunded.gp = st.gp + (st.gas + st.refund) := by rw [same]
  refine ⟨by rw [same], limit, ?_⟩
  have half := refund_le_half st
  rw [toNat_gasUsed st within] at half
  have less := UInt64.le_iff_toNat_le.mp within
  have enough : st.gas.toNat + st.refund.toNat ≤ st.initialGas.toNat := by omega
  have left : (st.gas + st.refund).toNat = st.gas.toNat + st.refund.toNat :=
    toNat_add_of_lt (Nat.lt_of_le_of_lt (enough.trans (Nat.le_add_left _ _)) fits)
  have remains : st.gas + st.refund ≤ st.initialGas := by
    rw [UInt64.le_iff_toNat_le, left]
    exact enough
  have credited : refunded.gp.toNat = st.gp.toNat + (st.gas + st.refund).toNat := by
    rw [pool]
    apply toNat_add_of_lt
    rw [left]
    exact Nat.lt_of_le_of_lt (Nat.add_le_add_left enough _) fits
  have spent := toNat_gasUsed refunded (by rw [gas, limit]; exact remains)
  rw [gas, limit] at spent
  rw [credited, spent, Nat.add_assoc, Nat.add_sub_cancel' (UInt64.le_iff_toNat_le.mp remains)]

/-- A message that is applied: the sender pays the gas limit at the gas price before the
run and the coinbase gets the same after it; the pool loses the gas used. -/
structure Paid (env : Env) (evm : Evm) (w : World) (msg : TxMessage) (gp : GasPool) (done : Done)
    (gas : UInt64) : Prop where
  world : done.st.world =
    (runEvm evm (w.subBalance msg.sender (charge msg (gasLimit msg))) msg gas).world.addBalance
      env.coinbase (charge msg (gasLimit msg))
  supply : supply done.st.world = supply w
  pool : done.st.gp.toNat + done.st.gasUsed.toNat = gp.toNat

theorem settle_ok {result : EvmResult} {done : Done} (ok : settle env st msg result = .ok done) :
    ∃ refunded,
      ({ st with gas := result.gas, world := result.world } : StateTransition).refundGas =
        .ok refunded ∧
      done.st = { refunded with
        world := refunded.world.addBalance env.coinbase (charge msg refunded.initialGas) } := by
  unfold settle at ok
  split at ok
  · cases ok
  · cases refunds : ({ st with gas := result.gas, world := result.world } :
        StateTransition).refundGas with
    | error failure =>
      rw [refunds] at ok
      cases ok
    | ok refunded =>
      rw [refunds] at ok
      cases ok
      exact ⟨refunded, rfl, rfl⟩

theorem transitionDb_paid {done : Done} (ok : transitionDb env evm w msg gp = .ok done) :
    ∃ gas ≤ gasLimit msg, Paid env evm w msg gp done gas := by
  obtain ⟨st, checked, rest⟩ := exists_of_bind_ok ok
  obtain ⟨paid, intrinsic, settled⟩ := exists_of_bind_ok rest
  obtain ⟨enough, rfl⟩ := preCheck_ok checked
  obtain ⟨gas, less, rfl⟩ := payIntrinsicGas_ok intrinsic
  obtain ⟨refunded, refunds, final⟩ := settle_ok settled
  have bought : (gp - gasLimit msg).toNat + (gasLimit msg).toNat = gp.toNat := by
    rw [UInt64.toNat_sub_of_le _ _ enough]
    exact Nat.sub_add_cancel (UInt64.le_iff_toNat_le.mp enough)
  obtain ⟨world, limit, pool⟩ := refundGas_ok
    (UInt64.le_trans (gas_runEvm gas) less) (by rw [bought]; exact gp.toNat_lt) refunds
  rw [bought] at pool
  have spent : done.st.gp.toNat + done.st.gasUsed.toNat = gp.toNat := by
    rw [final]
    exact pool
  rw [limit, world] at final
  refine ⟨gas, less, ?_, ?_, ?_⟩
  · rw [final]
  · rw [final, supply_addBalance, supply_runEvm, supply_subBalance]
    exact Int.sub_add_cancel _ _
  · exact spent

end

/-! ## A block -/

section
variable {env : Env} {evm : Evm}

def receiptGas (receipts : List Receipt) : Nat := (receipts.map fun r => r.gasUsed.toNat).sum

def Cumulative (receipts : List Receipt) : Prop :=
  ∀ (i : Nat) (r : Receipt), receipts[i]? = some r →
    r.cumulativeGasUsed.toNat = receiptGas (receipts.take (i + 1))

structure Accounted (limit : UInt64) (p : Processed) : Prop where
  pool : p.gp.toNat + p.usedGas.toNat = limit.toNat
  total : p.usedGas.toNat = receiptGas p.receipts
  cumulative : Cumulative p.receipts

theorem receiptGas_append (receipts : List Receipt) (r : Receipt) :
    receiptGas (receipts ++ [r]) = receiptGas receipts + r.gasUsed.toNat := by
  simp [receiptGas]

theorem Cumulative.append {receipts : List Receipt} (cumulative : Cumulative receipts) {r : Receipt}
    (own : r.cumulativeGasUsed.toNat = receiptGas (receipts ++ [r])) :
    Cumulative (receipts ++ [r]) := by
  intro i other found
  rcases Nat.lt_trichotomy i receipts.length with earlier | rfl | later
  · rw [List.getElem?_append_left earlier] at found
    rw [List.take_append_of_le_length earlier]
    exact cumulative i other found
  · simp only [List.getElem?_concat_length, Option.some.injEq] at found
    subst found
    rw [List.take_of_length_le (by simp)]
    exact own
  · rw [List.getElem?_eq_none (by simp; omega)] at found
    cases found

/-- What a transaction that is applied changes of gas and receipts. -/
theorem applyTransaction_ok {next : Processed} {tx : TxData}
    (ok : applyTransaction env evm p tx = .ok next) :
    ∃ (used : UInt64) (r : Receipt), next.gp.toNat + used.toNat = p.gp.toNat ∧
      next.usedGas = p.usedGas + used ∧ next.receipts = p.receipts ++ [r] ∧
      r.gasUsed = used ∧ r.cumulativeGasUsed = next.usedGas := by
  unfold applyTransaction at ok
  split at ok
  · cases ok
  · split at ok
    · cases ok
    · split at ok
      · cases ok
      · rename_i done applied
        split at ok
        · cases ok
        · obtain ⟨gas, _, paid⟩ := transitionDb_paid applied
          rw [← Except.ok.inj ok]
          exact ⟨done.st.gasUsed, _, paid.pool, rfl, rfl, rfl, rfl⟩

theorem Accounted.step {next : Processed} {tx : TxData} (accounted : Accounted limit p)
    (ok : applyTransaction env evm p tx = .ok next) :
    Accounted limit next := by
  obtain ⟨used, r, pool, usedGas, receipts, gasUsed, cumulative⟩ := applyTransaction_ok ok
  have before := accounted.pool
  rw [← pool, Nat.add_assoc, Nat.add_comm used.toNat] at before
  have fits : p.usedGas.toNat + used.toNat < 2 ^ 64 :=
    Nat.lt_of_le_of_lt (Nat.le_add_left _ _) (before ▸ limit.toNat_lt)
  have sum : next.usedGas.toNat = p.usedGas.toNat + used.toNat := by
    rw [usedGas]
    exact toNat_add_of_lt fits
  have total : next.usedGas.toNat = receiptGas next.receipts := by
    rw [receipts, receiptGas_append, gasUsed, sum, accounted.total]
  refine ⟨?_, total, ?_⟩
  · rw [sum]
    exact before
  · rw [receipts]
    apply accounted.cumulative.append
    rw [cumulative, total, receipts]

theorem Accounted.processFrom {final : Processed} (txs : List TxData)
    (accounted : Accounted limit p) (ok : GasAccounting.processFrom env evm txs p = .ok final) :
    Accounted limit final ∧ final.receipts.length = p.receipts.length + txs.length := by
  induction txs generalizing p with
  | nil =>
    cases ok
    exact ⟨accounted, rfl⟩
  | cons tx rest ih =>
    rw [GasAccounting.processFrom] at ok
    split at ok
    · cases ok
    · rename_i next applied
      obtain ⟨settled, length⟩ := ih (accounted.step applied) ok
      obtain ⟨_, _, _, _, receipts, _⟩ := applyTransaction_ok applied
      refine ⟨settled, ?_⟩
      rw [length, receipts, List.length_append, List.length_singleton, List.length_cons,
        Nat.add_assoc, Nat.add_comm 1]

theorem accounted_process {dc : DposContext} {w : World} {txs : List TxData} {final : Processed}
    (ok : process env evm limit dc w txs = .ok final) :
    Accounted limit final ∧ final.receipts.length = txs.length := by
  unfold process at ok
  split at ok
  · cases ok
  · rename_i gp added
    have start : Accounted limit ⟨dc, w, gp, 0, []⟩ := by
      refine ⟨?_, rfl, ?_⟩
      · rw [addGas_ok added, UInt64.zero_add]
        rfl
      · intro i r found
        cases found
    obtain ⟨accounted, length⟩ := start.processFrom txs ok
    exact ⟨accounted, length.trans (Nat.zero_add _)⟩

end

/-! ## The outermost calls of the virtual machine -/

section
variable (env : Env)

def Conserving : Prop := ∀ w contract, supply (env.vm.run w contract).world = supply w

variable {env} {w : World}

theorem supply_createAccount (addr : Address) : supply (w.createAccount addr) = supply w :=
  (supply_addBalance w addr 0).trans (Int.add_zero _)

theorem supply_transfer (sender recipient : Address) (amount : Int) :
    supply (w.transfer sender recipient amount) = supply w := by
  rw [World.transfer, supply_addBalance, supply_subBalance]
  exact Int.sub_add_cancel _ _

theorem supply_call (conserving : Conserving env) (caller addr : Address) (input : Bytes) (gas : Nat)
    (value : Int) : supply (call env w caller addr input gas value).world = supply w := by
  rw [call]
  split
  · rfl
  · split
    · rfl
    · dsimp only
      split
      · rw [conserving, supply_transfer]
        split
        · rfl
        · exact supply_createAccount addr
      · rfl

/-- A failed call keeps its gas only where it was reverted. -/
theorem ite_zero_le {reverted : Prop} [Decidable reverted] {left gas : Nat} (le : left ≤ gas) :
    (if reverted then left else 0) ≤ gas := by
  split
  · exact le
  · exact Nat.zero_le _

theorem gas_call (caller addr : Address) (input : Bytes) (gas : Nat) (value : Int) :
    (call env w caller addr input gas value).gas ≤ gas := by
  rw [call]
  split
  · exact le_refl _
  · split
    · exact le_refl _
    · dsimp only
      split
      · exact env.vm.gas_le _ _
      · exact ite_zero_le (env.vm.gas_le _ _)

theorem supply_prepareCreate (caller contractAddr : Address) (value : Int) :
    supply (prepareCreate env w caller contractAddr value) = supply w := by
  rw [prepareCreate, supply_transfer]
  split
  · rw [supply_setNonce, supply_createAccount]
  · rw [supply_createAccount]

theorem storeCode_le (result : RunResult) (contractAddr : Address) :
    supply (storeCode result contractAddr).world = supply result.world ∧
      (storeCode result contractAddr).gas ≤ result.gas := by
  rw [storeCode]
  split
  · exact ⟨(supply_addBalance _ contractAddr 0).trans (Int.add_zero _), Nat.sub_le _ _⟩
  · exact ⟨rfl, le_refl _⟩

/-- A creation ends with the state it started from or with that of the run. -/
theorem settleCreate_le (contractAddr : Address) (kept : supply result.world = supply w) :
    supply (settleCreate env w contractAddr result).world = supply w ∧
      (settleCreate env w contractAddr result).gas ≤ result.gas := by
  unfold settleCreate
  dsimp only
  -- The code of the contract is stored or not, and the whole creation reverted or not.
  split
  · obtain ⟨supplied, gas⟩ := storeCode_le result contractAddr
    split
    · exact ⟨rfl, ite_zero_le gas⟩
    · exact ⟨supplied.trans kept, gas⟩
  · split
    · exact ⟨rfl, ite_zero_le (le_refl _)⟩
    · exact ⟨kept, le_refl _⟩

theorem supply_create (conserving : Conserving env) (caller : Address) (code : Bytes) (gas : Nat)
    (value : Int) : supply (create env w caller code gas value).world = supply w := by
  rw [create]
  split
  · rfl
  · dsimp only
    split
    · exact supply_setNonce w caller _
    · refine (settleCreate_le _ ?_).1.trans (supply_setNonce w caller _)
      rw [conserving, supply_prepareCreate]

theorem gas_create (conserving : Conserving env) (caller : Address) (code : Bytes) (gas : Nat)
    (value : Int) : (create env w caller code gas value).gas ≤ gas := by
  rw [create]
  split
  · exact le_refl _
  · dsimp only
    split
    · exact Nat.zero_le _
    · refine (settleCreate_le _ ?_).2.trans (env.vm.gas_le _ _)
      rw [conserving, supply_prepareCreate]

/-- The result of an outermost call, its gas as a word. -/
def ofRunResult (result : RunResult) : EvmResult :=
  ⟨result.world, UInt64.ofNat result.gas, result.err, result.suicided⟩

theorem ofRunResult_le {gas : UInt64} (le : result.gas ≤ gas.toNat) :
    (ofRunResult result).gas ≤ gas := by
  rw [UInt64.le_iff_toNat_le, ofRunResult, UInt64.toNat_ofNat',
    Nat.mod_eq_of_lt (Nat.lt_of_le_of_lt le gas.toNat_lt)]
  exact le

/-- `Call` and `Create` over an interpreter that makes no coins. -/
def machine (env : Env) (conserving : Conserving env) : Evm where
  create w caller code gas value := ofRunResult (create env w caller code gas.toNat value)
  call w caller addr input gas value := ofRunResult (call env w caller addr input gas.toNat value)
  supply_create _ caller code gas value := supply_create conserving caller code gas.toNat value
  supply_call _ caller addr input gas value :=
    supply_call conserving caller addr input gas.toNat value
  gas_create _ caller code gas value :=
    ofRunResult_le (gas_create conserving caller code gas.toNat value)
  gas_call _ caller addr input gas value :=
    ofRunResult_le (gas_call caller addr input gas.toNat value)

end

theorem conserving_dbftEnv : Conserving dbftEnv := fun _ _ => rfl

end Linkeye.Core.GasAccounting
