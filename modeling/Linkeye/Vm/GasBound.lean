import Linkeye.Vm.Interpreter

/-!
# No frame makes gas

What a nested frame gives back was paid for by the call, stipend included.  One walk
over the machine shows for every function that it returns, how much gas it leaves, and
which calls of the state database it makes: a relation between states that is kept by
the calls which a read-only frame may make is kept by the whole run of such a frame.
-/

set_option autoImplicit false

namespace Linkeye.Vm.GasBound

open Common.Types Core.Journaling Lib.Programs
open Lib.Programs.Prog (Closed Ensures)
open Gas Instructions Interpreter LinearMemory OpCodes Words

/-! ## The account of gas -/

/-- A sum that does not wrap around, a frame within its initial gas. -/
def Fine : GasEvent → Prop
  | .sum x y => x.toNat + y.toNat < 2 ^ 64
  | .frame initial gas => gas ≤ initial

/-- The depth and the flag are as before, and nothing bad is in the account. -/
structure Kept (before after : Evm) : Prop where
  depth : after.depth = before.depth
  readOnly : after.readOnly = before.readOnly
  account : ∃ new, after.account = new ++ before.account ∧ ∀ event ∈ new, Fine event

variable {gas cost base : UInt64} {before : Evm}

namespace Kept
variable {a b c : Evm}

theorem refl (evm : Evm) : Kept evm evm := ⟨rfl, rfl, [], rfl, by simp⟩

theorem trans (first : Kept a b) (second : Kept b c) : Kept a c := by
  obtain ⟨old, oldEq, oldFine⟩ := first.account
  obtain ⟨new, newEq, newFine⟩ := second.account
  refine ⟨second.depth.trans first.depth, second.readOnly.trans first.readOnly, new ++ old, ?_,
    List.forall_mem_append.mpr ⟨newFine, oldFine⟩⟩
  rw [newEq, oldEq, List.append_assoc]

theorem note (kept : Kept a b) {event : GasEvent} (fine : Fine event) : Kept a (b.note event) := by
  obtain ⟨new, newEq, newFine⟩ := kept.account
  refine ⟨kept.depth, kept.readOnly, event :: new, ?_, List.forall_mem_cons.mpr ⟨fine, newFine⟩⟩
  rw [Evm.note, newEq, List.cons_append]

theorem noteFrame (kept : Kept a b) {initial : UInt64} (within : gas ≤ initial) :
    Kept a (b.note (.frame initial gas)) :=
  kept.note within

theorem congr (kept : Kept a b) (depth : c.depth = b.depth) (readOnly : c.readOnly = b.readOnly)
    (account : c.account = b.account) : Kept a c := by
  obtain ⟨new, newEq, newFine⟩ := kept.account
  exact ⟨depth.trans kept.depth, readOnly.trans kept.readOnly, new, account.trans newEq, newFine⟩

end Kept

theorem toNat_add_of_fine {x y : UInt64} (fine : x.toNat + y.toNat < 2 ^ 64) :
    (x + y).toNat = x.toNat + y.toNat := by
  rw [UInt64.toNat_add, Nat.mod_eq_of_lt fine]

/-! ## Prices -/

section
variable {evm : Evm} {mem : Memory} {size : UInt64}

theorem Charge.plus_eq_some {charge : Charge} {amount : Option UInt64}
    (sum : (charge.plus amount).cost = some cost) :
    ∃ x y, charge.cost = some x ∧ amount = some y ∧ cost.toNat = x.toNat + y.toNat := by
  simp only [Charge.plus] at sum
  split at sum
  · rename_i _ _ x y first
    exact ⟨x, y, first, rfl, toNat_safeAdd sum⟩
  · cases sum

theorem toNat_toWordSize {size : UInt64} (bounded : size ≤ maxMemSize) :
    (toWordSize size).toNat = (size.toNat + 31) / 32 := by
  have largest : maxMemSize.toNat = 0xffffffffe0 := rfl
  have small : size.toNat ≤ maxMemSize.toNat := UInt64.le_iff_toNat_le.mp bounded
  rw [toWordSize, if_neg (by omega), UInt64.toNat_div, UInt64.toNat_add]
  simp only [UInt64.reduceToNat]
  rw [Nat.mod_eq_of_lt (by omega)]

theorem memoryGasCost_kept (evm : Evm) (mem : Memory) (size : UInt64) :
    Kept evm (memoryGasCost evm mem size).evm := by
  unfold memoryGasCost
  split
  · exact .refl evm
  · split
    · exact .refl evm
    · rename_i bounded
      dsimp only
      split
      · have words := toNat_toWordSize (UInt64.not_lt.mp bounded)
        have small : size.toNat ≤ maxMemSize.toNat :=
          UInt64.le_iff_toNat_le.mp (UInt64.not_lt.mp bounded)
        have largest : maxMemSize.toNat = 0xffffffffe0 := rfl
        have root := (toWordSize size * toWordSize size).toNat_lt
        apply (Kept.refl evm).note
        rw [Fine, UInt64.toNat_mul, UInt64.toNat_div, words]
        simp only [UInt64.reduceToNat]
        rw [Nat.mod_eq_of_lt (by omega)]
        omega
      · exact .refl evm

theorem memoryGasCost_bounded (priced : (memoryGasCost evm mem size).cost = some cost) :
    size ≤ maxMemSize := by
  unfold memoryGasCost at priced
  split at priced
  · rename_i zero
    rw [zero]
    decide
  · split at priced
    · cases priced
    · rename_i bounded
      exact UInt64.not_lt.mp bounded

end

/-- What an operation may get back on top of the gas its contract has left: the gas that
was handed on, with the stipend. -/
def returned (evm : Evm) (stack : List Nat) : OpCode → Nat
  | .CALL | .CALLCODE =>
    evm.callGasTemp.toNat + if back stack 2 ≠ 0 then callStipend.toNat else 0
  | .DELEGATECALL | .STATICCALL => evm.callGasTemp.toNat
  | _ => 0

/-- Operations after which a frame ends; only these may be free. -/
def ends (op : OpCode) : Bool := (operation op).halts || (operation op).reverts

/-- A price that is right for an operation: it is at least what the operation may get back,
and more if the frame goes on. -/
structure Priced (evm : Evm) (stack : List Nat) (size : UInt64) (op : OpCode) (charge : Charge) :
    Prop where
  kept : Kept evm charge.evm
  bounded : ∀ {cost}, charge.cost = some cost → (memorySize stack op).isSome = true →
    size ≤ maxMemSize
  covers : ∀ {cost}, charge.cost = some cost → returned charge.evm stack op ≤ cost.toNat
  costs : ∀ {cost}, charge.cost = some cost → ends op = false →
    returned charge.evm stack op < cost.toNat

section
variable {evm : Evm} {stack : List Nat} {mem : Memory} {size : UInt64} {op : OpCode}
  {charge : Charge}

/-- Operations that get nothing back. -/
theorem priced_of_base (base : UInt64) (nothing : ∀ evm, returned evm stack op = 0)
    (kept : Kept evm charge.evm) (positive : ends op = false → 0 < base.toNat)
    (above : ∀ {cost}, charge.cost = some cost → base.toNat ≤ cost.toNat)
    (bounded : ∀ {cost}, charge.cost = some cost → (memorySize stack op).isSome = true →
      size ≤ maxMemSize) : Priced evm stack size op charge where
  kept := kept
  bounded := bounded
  covers := by
    intro cost _
    rw [nothing]
    exact Nat.zero_le _
  costs := by
    intro cost priced goesOn
    rw [nothing]
    exact Nat.lt_of_lt_of_le (positive goesOn) (above priced)

theorem gasMemory_above (priced : (gasMemory base evm mem size).cost = some cost) :
    base.toNat ≤ cost.toNat ∧ size ≤ maxMemSize := by
  obtain ⟨x, y, memory, same, sum⟩ := Charge.plus_eq_some priced
  cases same
  exact ⟨by omega, memoryGasCost_bounded memory⟩

theorem plus_above {amount : Option UInt64}
    (above : ∀ {cost}, charge.cost = some cost → base.toNat ≤ cost.toNat ∧ size ≤ maxMemSize)
    (priced : (charge.plus amount).cost = some cost) :
    base.toNat ≤ cost.toNat ∧ size ≤ maxMemSize := by
  obtain ⟨x, y, first, _, sum⟩ := Charge.plus_eq_some priced
  obtain ⟨least, bounded⟩ := above first
  exact ⟨by omega, bounded⟩

theorem priced_of_above (nothing : ∀ evm, returned evm stack op = 0) (kept : Kept evm charge.evm)
    (positive : 0 < base.toNat)
    (above : ∀ {cost}, charge.cost = some cost → base.toNat ≤ cost.toNat ∧ size ≤ maxMemSize) :
    Priced evm stack size op charge :=
  priced_of_base base nothing kept (fun _ => positive) (fun priced => (above priced).1)
    (fun priced _ => (above priced).2)

/-! ### Calls -/

theorem chargeCall_kept {gt : GasTable} {contract : Contract} {callCost : Nat}
    (kept : Kept before charge.evm) : Kept before (chargeCall gt contract callCost charge).evm := by
  unfold chargeCall
  split
  · exact kept
  · split
    · exact kept
    · exact kept.congr rfl rfl rfl

/-- The price of a call is that of the call itself and the gas that is handed on. -/
theorem chargeCall_eq_some {gt : GasTable} {contract : Contract} {callCost : Nat}
    (priced : (chargeCall gt contract callCost charge).cost = some cost) :
    ∃ base, charge.cost = some base ∧ cost.toNat = base.toNat +
      (chargeCall gt contract callCost charge).evm.callGasTemp.toNat := by
  unfold chargeCall at priced ⊢
  split at priced
  · rename_i failed
    rw [failed] at priced
    cases priced
  · rename_i base found
    split at priced
    · cases priced
    · simp only [found]
      exact ⟨base, rfl, toNat_safeAdd priced⟩

theorem addIf_spec (cond : Bool) (amount : UInt64) (gas : UInt64 × Evm) (kept : Kept before gas.2)
    (fine : gas.1.toNat + amount.toNat < 2 ^ 64) :
    (addIf cond amount gas).1.toNat = gas.1.toNat + (if cond = true then amount.toNat else 0) ∧
      Kept before (addIf cond amount gas).2 := by
  unfold addIf
  split
  · exact ⟨toNat_add_of_fine fine, kept.note fine⟩
  · exact ⟨rfl, kept⟩

theorem calls_range (rules : Rules) :
    40 ≤ rules.gasTable.calls.toNat ∧ rules.gasTable.calls.toNat ≤ 700 := by
  unfold Rules.gasTable
  split
  · decide
  · split <;> decide

/-- The gas functions of calls: `gas` is the price without memory. -/
theorem priced_call {ctx : Context} {contract : Contract} (gas : UInt64 × Evm)
    (kept : Kept evm gas.2)
    (enough : ∀ evm : Evm, returned evm stack op < gas.1.toNat + evm.callGasTemp.toNat) :
    Priced evm stack size op (chargeCall ctx.rules.gasTable contract (back stack 0)
      ((memoryGasCost gas.2 mem size).plus (some gas.1))) := by
  have strict : ∀ {cost}, (chargeCall ctx.rules.gasTable contract (back stack 0)
      ((memoryGasCost gas.2 mem size).plus (some gas.1))).cost = some cost →
      size ≤ maxMemSize ∧ returned (chargeCall ctx.rules.gasTable contract (back stack 0)
        ((memoryGasCost gas.2 mem size).plus (some gas.1))).evm stack op < cost.toNat := by
    intro cost priced
    obtain ⟨base, sum, handed⟩ := chargeCall_eq_some priced
    obtain ⟨x, y, memory, same, total⟩ := Charge.plus_eq_some sum
    cases same
    have paid := enough (chargeCall ctx.rules.gasTable contract (back stack 0)
      ((memoryGasCost gas.2 mem size).plus (some gas.1))).evm
    exact ⟨memoryGasCost_bounded memory, by omega⟩
  exact
    { kept := chargeCall_kept (kept.trans (memoryGasCost_kept _ _ _))
      bounded := fun priced _ => (strict priced).1
      covers := fun priced => (strict priced).2.le
      costs := fun priced _ => (strict priced).2 }

theorem gasCallOf_priced (ctx : Context) (contract : Contract) (missing : Bool) :
    Priced evm stack size .CALL (gasCallOf ctx evm contract stack mem size missing) := by
  have range := calls_range ctx.rules
  have newAccount : callNewAccountGas.toNat = 25000 := rfl
  have transfer : callValueTransferGas.toNat = 9000 := rfl
  have stipend : callStipend.toNat = 2300 := rfl
  unfold gasCallOf
  dsimp only
  generalize (if ctx.rules.isEIP158 = true then decide (back stack 2 ≠ 0) && missing
    else missing) = fresh
  obtain ⟨first, keptFirst⟩ := addIf_spec fresh callNewAccountGas
    (ctx.rules.gasTable.calls, evm) (.refl evm) (by dsimp only; omega)
  dsimp only at first
  obtain ⟨second, keptSecond⟩ := addIf_spec (decide (back stack 2 ≠ 0)) callValueTransferGas _
    keptFirst (by split at first <;> omega)
  refine priced_call _ keptSecond ?_
  intro evm
  rw [second]
  simp only [returned, decide_eq_true_eq]
  split at first <;> split <;> omega

theorem gasCallCode_priced (ctx : Context) (contract : Contract) :
    Priced evm stack size .CALLCODE (gasCallCode ctx evm contract stack mem size) := by
  have range := calls_range ctx.rules
  have transfer : callValueTransferGas.toNat = 9000 := rfl
  have stipend : callStipend.toNat = 2300 := rfl
  unfold gasCallCode
  obtain ⟨sum, kept⟩ := addIf_spec (decide (back stack 2 ≠ 0)) callValueTransferGas
    (ctx.rules.gasTable.calls, evm) (.refl evm) (by dsimp only; omega)
  refine priced_call _ kept ?_
  intro evm
  rw [sum]
  simp only [returned, decide_eq_true_eq]
  split <;> omega

theorem gasPlainCall_priced (ctx : Context) (contract : Contract)
    (plain : op = .DELEGATECALL ∨ op = .STATICCALL) :
    Priced evm stack size op (gasPlainCall ctx evm contract stack mem size) := by
  have range := calls_range ctx.rules
  refine priced_call (ctx.rules.gasTable.calls, evm) (.refl evm) ?_
  intro evm
  rcases plain with same | same
  · subst same
    simp only [returned]
    omega
  · subst same
    simp only [returned]
    omega

end

/-! ## Calls of the state database -/

/-- The calls that only read. -/
def reading : Call → Bool
  | .getBalance _ | .getNonce _ | .getCode _ | .getRefund | .getState _ _ | .hasSuicided _
  | .exist _ | .empty _ => true
  | _ => false

/-- A relation that the calls of a frame keep; in a static frame these are the calls that
read, the transfers of nothing and the creation of an account that does not exist. -/
structure Guards {S : Type} (m : Machine stateInterface S) (static : Bool) (R : S → S → Prop) : Prop
    extends Closed m R where
  reads : ∀ {c : Call}, reading c = true → ∀ s, R s (m.call c s).1
  writes : static = false → ∀ (c : Call) (s : S), R s (m.call c s).1
  addsNothing : ∀ addr s, R s (m.call (.addBalance addr 0) s).1
  takesNothing : ∀ addr s, R s (m.call (.subBalance addr 0) s).1
  creates : ∀ addr s, (m.call (.exist addr) s).2 = false →
    R s (m.call (.createAccount addr) (m.call (.exist addr) s).1).1

theorem dynamic_of_writes {static writes : Bool} (allowed : static = true → writes = false)
    (does : writes = true) : static = false := by
  cases static with
  | false => rfl
  | true =>
    rw [allowed rfl] at does
    cases does

section
variable {S : Type} {m : Machine stateInterface S} {static : Bool} {R : S → S → Prop}
  (guards : Guards m static R)
include guards

theorem Guards.read {α : Type} {c : Call} {k : stateInterface.Answer c → Action α} {Q : α → Prop}
    (reads : reading c = true) (rest : ∀ answer, Ensures m keeps R (k answer) Q) :
    Ensures m keeps R (ask c >>= k) Q :=
  guards.bind (Ensures.ask (guards.reads reads) fun _ => trivial)
    fun answer (_ : True) => rest answer

theorem Guards.write {α : Type} {c : Call} {k : stateInterface.Answer c → Action α} {Q : α → Prop}
    (dynamic : static = false) (rest : ∀ answer, Ensures m keeps R (k answer) Q) :
    Ensures m keeps R (ask c >>= k) Q :=
  guards.bind (Ensures.ask (guards.writes dynamic c) fun _ => trivial)
    fun answer (_ : True) => rest answer

theorem transfer_ensures {sender recipient : Address} {amount : Nat}
    (nothing : static = true → amount = 0) :
    Ensures m keeps R (transfer sender recipient amount) (fun _ => True) := by
  cases mode : static with
  | false =>
    refine guards.write mode fun _ => ?_
    refine guards.write mode fun _ => ?_
    exact guards.pure trivial
  | true =>
    rw [nothing mode]
    refine guards.bind (.ask (guards.takesNothing sender) fun _ => trivial)
      fun _ (_ : True) => ?_
    refine guards.bind (.ask (guards.addsNothing recipient) fun _ => trivial)
      fun _ (_ : True) => ?_
    exact guards.pure trivial

end

/-! ## The price of every operation -/

section
variable {evm : Evm} {stack : List Nat} {mem : Memory} {size : UInt64}

theorem constGas_pos (rules : Rules) {op : OpCode} (goesOn : ends op = false) :
    0 < (constGas rules.gasTable op).toNat := by
  have prices : 0 < rules.gasTable.balance.toNat ∧ 0 < rules.gasTable.extcodeSize.toNat ∧
      0 < rules.gasTable.sLoad.toNat := by
    unfold Rules.gasTable
    split
    · decide
    · split <;> decide
  cases op
  case BALANCE => exact prices.1
  case EXTCODESIZE => exact prices.2.1
  case SLOAD => exact prices.2.2
  case STOP => cases goesOn
  all_goals simp [constGas]

theorem extcodeCopy_pos (rules : Rules) : 0 < rules.gasTable.extcodeCopy.toNat := by
  unfold Rules.gasTable
  split
  · decide
  · split <;> decide

theorem gasExp_priced (ctx : Context) :
    Priced evm stack size .EXP ⟨gasExp ctx.rules.gasTable (back stack 1), evm, mem⟩ := by
  refine priced_of_base 10 (fun _ => rfl) (.refl evm) (fun _ => by decide) ?_ ?_
  · intro cost priced
    have sum := toNat_safeAdd priced
    omega
  · intro cost _ asks
    cases asks

theorem gasMemory_kept (base : UInt64) : Kept evm (gasMemory base evm mem size).evm :=
  memoryGasCost_kept evm mem size

theorem gasCopy_priced {op : OpCode} {perWord : UInt64} {length : Nat}
    (nothing : ∀ evm, returned evm stack op = 0) (positive : 0 < base.toNat) :
    Priced evm stack size op (gasCopy base perWord length evm mem size) :=
  priced_of_above nothing (gasMemory_kept base) positive (plus_above gasMemory_above)

theorem gasMemory_priced {op : OpCode} (nothing : ∀ evm, returned evm stack op = 0)
    (positive : 0 < base.toNat) : Priced evm stack size op (gasMemory base evm mem size) :=
  priced_of_above nothing (gasMemory_kept base) positive gasMemory_above

theorem memoryGasCost_priced {op : OpCode} (nothing : ∀ evm, returned evm stack op = 0)
    (last : ends op = true) : Priced evm stack size op (memoryGasCost evm mem size) :=
  priced_of_base 0 nothing (memoryGasCost_kept evm mem size)
    (fun goesOn => by rw [last] at goesOn; cases goesOn) (fun _ => Nat.zero_le _)
    (fun priced _ => memoryGasCost_bounded priced)

theorem priced_of_const {op : OpCode} {after : Evm} (nothing : ∀ evm, returned evm stack op = 0)
    (noMemory : memorySize stack op = none) (kept : Kept evm after)
    (positive : ends op = false → 0 < cost.toNat) :
    Priced evm stack size op ⟨some cost, after, mem⟩ := by
  refine priced_of_base cost nothing kept positive ?_ ?_
  · intro found priced
    cases priced
    exact Nat.le_refl _
  · intro _ _ asks
    rw [noMemory] at asks
    cases asks

variable {S : Type} {m : Machine stateInterface S} {static : Bool} {R : S → S → Prop}
  (guards : Guards m static R) (ctx : Context) (contract : Contract)
include guards

theorem gasCall_ensures :
    Ensures m keeps R (gasCall ctx evm contract stack mem size) (Priced evm stack size .CALL) := by
  have priced : ∀ missing,
      Priced evm stack size .CALL (gasCallOf ctx evm contract stack mem size missing) :=
    gasCallOf_priced ctx contract
  unfold gasCall
  split
  · split
    · refine guards.read rfl fun missing => ?_
      exact guards.pure (priced missing)
    · exact guards.pure (priced false)
  · refine guards.read rfl fun there => ?_
    exact guards.pure (priced !there)

theorem gasSStore_ensures (dynamic : static = false) :
    Ensures m keeps R (gasSStore evm contract stack mem) (Priced evm stack size .SSTORE) := by
  have priced : ∀ cost : UInt64, 0 < cost.toNat →
      Priced evm stack size .SSTORE ⟨some cost, evm, mem⟩ := fun cost positive =>
    priced_of_const (fun _ => rfl) rfl (.refl evm) fun _ => positive
  unfold gasSStore
  refine guards.read rfl fun val => ?_
  dsimp only
  split
  · exact guards.pure (priced 20000 (by decide))
  · split
    · refine guards.write dynamic fun _ => ?_
      exact guards.pure (priced 5000 (by decide))
    · exact guards.pure (priced 5000 (by decide))

theorem suicideGas_ensures :
    Ensures m keeps R (suicideGas ctx evm contract stack) (fun gas => Kept evm gas.2) := by
  have fine : ctx.rules.gasTable.suicide.toNat + ctx.rules.gasTable.createBySuicide.toNat <
      2 ^ 64 := by
    unfold Rules.gasTable
    split
    · decide
    · split <;> decide
  unfold suicideGas
  split
  · split
    · refine guards.read rfl fun missing => ?_
      split
      · refine guards.read rfl fun balance => ?_
        exact guards.pure (addIf_spec _ _ _ (.refl evm) fine).2
      · exact guards.pure (.refl evm)
    · refine guards.read rfl fun there => ?_
      exact guards.pure (addIf_spec _ _ _ (.refl evm) fine).2
  · exact guards.pure (.refl evm)

theorem gasSuicide_ensures (dynamic : static = false) :
    Ensures m keeps R (gasSuicide ctx evm contract stack mem)
      (Priced evm stack size .SELFDESTRUCT) := by
  unfold gasSuicide
  refine guards.bind (suicideGas_ensures guards ctx contract) fun gas kept => ?_
  have priced : Priced evm stack size .SELFDESTRUCT ⟨some gas.1, gas.2, mem⟩ :=
    priced_of_const (fun _ => rfl) rfl kept fun goesOn => nomatch goesOn
  refine guards.read rfl fun suicided => ?_
  split
  · refine guards.write dynamic fun _ => ?_
    exact guards.pure priced
  · exact guards.pure priced

theorem gasCost_ensures (op : OpCode) (allowed : static = true → (operation op).writes = false) :
    Ensures m keeps R (gasCost ctx evm contract stack mem size op) (Priced evm stack size op) := by
  have dynamic := dynamic_of_writes allowed
  cases op
  case EXP => exact guards.pure (gasExp_priced ctx)
  case SHA3 => exact guards.pure (gasCopy_priced (fun _ => rfl) (by decide))
  case CALLDATACOPY => exact guards.pure (gasCopy_priced (fun _ => rfl) (by decide))
  case CODECOPY => exact guards.pure (gasCopy_priced (fun _ => rfl) (by decide))
  case RETURNDATACOPY => exact guards.pure (gasCopy_priced (fun _ => rfl) (by decide))
  case EXTCODECOPY => exact guards.pure (gasCopy_priced (fun _ => rfl) (extcodeCopy_pos ctx.rules))
  case MLOAD => exact guards.pure (gasMemory_priced (fun _ => rfl) (by decide))
  case MSTORE => exact guards.pure (gasMemory_priced (fun _ => rfl) (by decide))
  case MSTORE8 => exact guards.pure (gasMemory_priced (fun _ => rfl) (by decide))
  case SSTORE => exact gasSStore_ensures guards contract (dynamic rfl)
  case LOG n =>
    exact guards.pure (priced_of_above (fun _ => rfl) (gasMemory_kept 375) (by decide)
      (plus_above (plus_above gasMemory_above)))
  case CREATE => exact guards.pure (gasMemory_priced (fun _ => rfl) (by decide))
  case CALL => exact gasCall_ensures guards ctx contract
  case CALLCODE => exact guards.pure (gasCallCode_priced ctx contract)
  case DELEGATECALL => exact guards.pure (gasPlainCall_priced ctx contract (.inl rfl))
  case STATICCALL => exact guards.pure (gasPlainCall_priced ctx contract (.inr rfl))
  case RETURN => exact guards.pure (memoryGasCost_priced (fun _ => rfl) rfl)
  case REVERT => exact guards.pure (memoryGasCost_priced (fun _ => rfl) rfl)
  case SELFDESTRUCT => exact gasSuicide_ensures guards ctx contract (dynamic rfl)
  all_goals
    exact guards.pure
      (priced_of_const (fun _ => rfl) rfl (.refl evm) fun goesOn => constGas_pos ctx.rules goesOn)

end

/-! ## Calls and creations -/

/-- A run has returned with no more gas than it got. -/
def Returns (evm : Evm) (gas : UInt64) (out : Option RunOut) : Prop :=
  ∃ done, out = some done ∧ done.gas ≤ gas ∧ Kept evm done.evm

/-- A call has returned with no more gas than it got. -/
def Leaves (evm : Evm) (gas : UInt64) (out : Option Outcome) : Prop :=
  ∃ done, out = some done ∧ done.gas ≤ gas ∧ Kept evm done.evm

/-- What is asked of the interpreter for frames at a depth. -/
def RunnerOk {S : Type} (m : Machine stateInterface S) (static : Bool) (R : S → S → Prop)
    (interp : Runner) (depth : Nat) : Prop :=
  ∀ evm contract input, evm.depth = depth → depth ≤ callCreateDepth →
    (static = true → evm.readOnly = true) →
      Ensures m keeps R (interp evm contract input) (Returns evm contract.gas)

theorem useGas_eq_some {contract paid : Contract} (used : useGas contract gas = some paid) :
    paid.gas.toNat + gas.toNat = contract.gas.toNat := by
  unfold useGas at used
  split at used
  · cases used
  · rename_i enough
    cases used
    have le := UInt64.le_iff_toNat_le.mp (UInt64.not_lt.mp enough)
    rw [UInt64.toNat_sub_of_le _ _ (UInt64.not_lt.mp enough)]
    omega

theorem early_leaves (evm : Evm) (gas : UInt64) (err : Option VmError) :
    Leaves evm gas (early evm gas err) :=
  ⟨_, rfl, UInt64.le_refl gas, .refl evm⟩

theorem settle_leaves {evm : Evm} {out : Option RunOut} (returns : Returns evm gas out) :
    Leaves evm gas (out.map settle) := by
  obtain ⟨done, rfl, within, kept⟩ := returns
  refine ⟨settle done, rfl, ?_, ?_⟩
  · unfold settle
    split
    · exact within
    · split
      · exact within
      · exact UInt64.zero_le
  · unfold settle
    split <;> exact kept

section
variable {S : Type} {m : Machine stateInterface S} {static : Bool} {R : S → S → Prop}
  (guards : Guards m static R) (ctx : Context) {interp : Runner} {evm : Evm}
  (runner : RunnerOk m static R interp evm.depth) (flag : static = true → evm.readOnly = true)
include guards

theorem run_ensures (runner : RunnerOk m static R interp evm.depth)
    (flag : static = true → evm.readOnly = true) (shallow : evm.depth ≤ callCreateDepth)
    (contract : Contract) (input : Bytes) :
    Ensures m keeps R (run ctx interp evm contract input) (Returns evm contract.gas) := by
  unfold run
  split
  · refine guards.pure ⟨_, rfl, ?_⟩
    unfold runPrecompiledContract
    split
    · exact ⟨UInt64.le_refl _, .refl evm⟩
    · rename_i paid used
      have sum := useGas_eq_some used
      have within : paid.gas ≤ contract.gas := UInt64.le_iff_toNat_le.mpr (by omega)
      split
      · exact ⟨within, .refl evm⟩
      · exact ⟨within, .refl evm⟩
  · exact runner evm contract input rfl shallow flag

include runner flag

theorem runCode_ensures (shallow : evm.depth ≤ callCreateDepth) (addr : Address) (input : Bytes)
    {contract : Bytes → Contract} (given : ∀ code, (contract code).gas = gas) :
    Ensures m keeps R (runCode ctx interp evm addr input contract) (Leaves evm gas) := by
  refine guards.read rfl fun (code : Bytes) => ?_
  refine guards.bind (run_ensures guards ctx runner flag shallow (contract code) input)
    fun out returns => ?_
  rw [given] at returns
  exact guards.pure (settle_leaves returns)

theorem callFrame_ensures (shallow : evm.depth ≤ callCreateDepth) (caller addr : Address)
    (input : Bytes) (gas : UInt64) {value : Nat} (nothing : static = true → value = 0) :
    Ensures m keeps R (callFrame ctx interp evm caller addr input gas value) (Leaves evm gas) := by
  have entered : Ensures m keeps R
      (do
        transfer caller addr value
        runCode ctx interp evm addr input fun code => ⟨caller, addr, code, addr, [], gas, value⟩)
      (Leaves evm gas) :=
    guards.bind (transfer_ensures guards nothing) fun _ _ =>
      runCode_ensures guards ctx runner flag shallow addr input fun _ => rfl
  intro s
  have asked : (ask (.exist addr)).run m keeps s = m.call (.exist addr) s := rfl
  rw [callFrame, Prog.run_bind, asked]
  have read : R s (m.call (.exist addr) s).1 := guards.reads (c := .exist addr) rfl s
  -- an account is only created where `Exist` has said that there is none
  cases answer : (m.call (.exist addr) s).2 with
  | true =>
    obtain ⟨related, leaves⟩ := entered (m.call (.exist addr) s).1
    exact ⟨guards.trans read related, leaves⟩
  | false =>
    rw [if_neg Bool.false_ne_true]
    split
    · exact ⟨read, early_leaves evm gas none⟩
    · obtain ⟨related, leaves⟩ :=
        entered (m.call (.createAccount addr) (m.call (.exist addr) s).1).1
      exact ⟨guards.trans (guards.creates addr s answer) related, leaves⟩

theorem call_ensures (caller addr : Address) (input : Bytes) (gas : UInt64) {value : Nat}
    (nothing : static = true → value = 0) :
    Ensures m keeps R (call ctx interp evm caller addr input gas value) (Leaves evm gas) := by
  refine guards.unless (early_leaves _ _ _) fun _ => ?_
  refine guards.unless (early_leaves _ _ _) fun shallow => ?_
  refine guards.read rfl fun (balance : Int) => ?_
  refine guards.unless (early_leaves _ _ _) fun _ => ?_
  exact guards.within
    (callFrame_ensures guards ctx runner flag (by omega) caller addr input gas nothing)

theorem callCode_ensures (caller addr : Address) (input : Bytes) (gas : UInt64) (value : Nat) :
    Ensures m keeps R (callCode ctx interp evm caller addr input gas value) (Leaves evm gas) := by
  refine guards.unless (early_leaves _ _ _) fun _ => ?_
  refine guards.unless (early_leaves _ _ _) fun shallow => ?_
  refine guards.read rfl fun (balance : Int) => ?_
  refine guards.unless (early_leaves _ _ _) fun _ => ?_
  exact guards.within (runCode_ensures guards ctx runner flag (by omega) addr input fun _ => rfl)

theorem delegateCall_ensures (parent : Contract) (addr : Address) (input : Bytes) (gas : UInt64) :
    Ensures m keeps R (delegateCall ctx interp evm parent addr input gas) (Leaves evm gas) := by
  refine guards.unless (early_leaves _ _ _) fun _ => ?_
  refine guards.unless (early_leaves _ _ _) fun shallow => ?_
  exact guards.within (runCode_ensures guards ctx runner flag (by omega) addr input fun _ => rfl)

omit flag

/-- The flag is set for the frame, so nothing is asked of it before. -/
theorem staticCall_ensures (caller addr : Address) (input : Bytes) (gas : UInt64) :
    Ensures m keeps R (staticCall ctx interp evm caller addr input gas) (Leaves evm gas) := by
  refine guards.unless (early_leaves _ _ _) fun _ => ?_
  refine guards.unless (early_leaves _ _ _) fun shallow => ?_
  have framed : Ensures m keeps R
      (runCode ctx interp { evm with readOnly := true } addr input fun code =>
        ⟨caller, addr, code, addr, [], gas, 0⟩)
      (Leaves { evm with readOnly := true } gas) := by
    apply runCode_ensures guards ctx
    · exact runner
    · exact fun _ => rfl
    · exact Nat.not_lt.mp shallow
    · exact fun _ => rfl
  refine guards.bind (guards.within framed) fun out leaves => ?_
  obtain ⟨done, rfl, within, kept⟩ := leaves
  refine guards.pure ⟨resetReadOnly evm done, rfl, ?_⟩
  unfold resetReadOnly
  split
  · exact ⟨within, kept.depth, kept.readOnly.trans (Eq.symm ‹_›), kept.account⟩
  · exact ⟨within, kept.depth, (Bool.eq_false_iff.mpr ‹_›).symm, kept.account⟩

omit runner

theorem prepareContract_ensures (dynamic : static = false) (caller contractAddr : Address)
    (value : Nat) :
    Ensures m keeps R (prepareContract ctx caller contractAddr value) (fun _ => True) := by
  have nothing : static = true → value = 0 := fun mode => nomatch dynamic.symm.trans mode
  unfold prepareContract
  refine guards.write dynamic fun _ => ?_
  split
  · refine guards.write dynamic fun _ => ?_
    exact transfer_ensures guards nothing
  · exact transfer_ensures guards nothing

theorem storeCode_ensures (dynamic : static = false) (contractAddr : Address) {out : RunOut}
    (within : out.gas ≤ gas) (kept : Kept evm out.evm) :
    Ensures m keeps R (storeCode ctx contractAddr out)
      (fun done => done.gas ≤ gas ∧ Kept evm done.evm) := by
  unfold storeCode
  dsimp only
  split
  · refine guards.pure ⟨?_, kept⟩
    split
    · exact within
    · exact UInt64.zero_le
  · split
    · obtain ⟨done, same, settled⟩ := settle_leaves ⟨out, rfl, within, kept⟩
      cases same
      exact guards.pure settled
    · split
      · rename_i affordable
        refine guards.write dynamic fun _ => ?_
        refine guards.pure ⟨UInt64.le_trans ?_ within, kept⟩
        apply UInt64.le_iff_toNat_le.mpr
        rw [UInt64.toNat_sub_of_le _ _ affordable]
        omega
      · split
        · exact guards.pure ⟨UInt64.zero_le, kept⟩
        · exact guards.pure ⟨within, kept⟩

include runner flag

theorem createFrame_ensures (dynamic : static = false) (shallow : evm.depth ≤ callCreateDepth)
    (caller contractAddr : Address) (code : Bytes) (gas : UInt64) (value : Nat) :
    Ensures m keeps R (createFrame ctx interp evm caller contractAddr code gas value)
      (Leaves evm gas) := by
  refine guards.bind (prepareContract_ensures guards ctx dynamic caller contractAddr value)
    fun _ _ => ?_
  refine guards.unless (early_leaves _ _ _) fun _ => ?_
  refine guards.bind (run_ensures guards ctx runner flag shallow _ _) fun out returns => ?_
  obtain ⟨done, rfl, within, kept⟩ := returns
  refine guards.bind (storeCode_ensures guards ctx dynamic contractAddr within kept)
    fun stored settled => ?_
  exact guards.pure ⟨stored, rfl, settled⟩

theorem create_ensures (dynamic : static = false) (caller : Address) (code : Bytes) (gas : UInt64)
    (value : Nat) :
    Ensures m keeps R (create ctx interp evm caller code gas value)
      (fun made => Leaves evm gas made.1) := by
  refine guards.unless (early_leaves _ _ _) fun shallow => ?_
  refine guards.read rfl fun (balance : Int) => ?_
  refine guards.unless (early_leaves _ _ _) fun _ => ?_
  refine guards.read rfl fun nonce => ?_
  refine guards.write dynamic fun _ => ?_
  refine guards.read rfl fun (contractCode : Bytes) => ?_
  refine guards.read rfl fun (contractNonce : Nat) => ?_
  refine guards.unless ⟨_, rfl, UInt64.zero_le, .refl evm⟩ fun _ => ?_
  refine guards.bind (guards.within (createFrame_ensures guards ctx runner flag dynamic (by omega)
    caller _ code gas value)) fun out leaves => ?_
  exact guards.pure leaves

end

/-! ## Instructions -/

/-- The items that a call takes from the stack. -/
theorem eq_backs_seven {stack : List Nat} (enough : 7 ≤ stack.length) :
    ∃ rest, stack = back stack 0 :: back stack 1 :: back stack 2 :: back stack 3 ::
      back stack 4 :: back stack 5 :: back stack 6 :: rest := by
  match stack, enough with
  | _ :: _ :: _ :: _ :: _ :: _ :: _ :: rest, _ => exact ⟨rest, rfl⟩

theorem eq_backs_six {stack : List Nat} (enough : 6 ≤ stack.length) :
    ∃ rest, stack = back stack 0 :: back stack 1 :: back stack 2 :: back stack 3 ::
      back stack 4 :: back stack 5 :: rest := by
  match stack, enough with
  | _ :: _ :: _ :: _ :: _ :: _ :: rest, _ => exact ⟨rest, rfl⟩

/-- An instruction has returned, with at most so much gas on top of what there was. -/
def Executes (evm : Evm) (gas : UInt64) (extra : Nat) (out : Option Executed) : Prop :=
  ∃ done, out = some done ∧ Kept evm done.evm ∧ done.frame.contract.gas.toNat ≤ gas.toNat + extra

theorem executes_after {evm : Evm} {frame : Frame} {effect : Option Effect}
    (runs : effect.isSome = true) (extra : Nat) :
    Executes evm frame.contract.gas extra (effect.map (frame.after evm)) := by
  obtain ⟨done, rfl⟩ := Option.isSome_iff_exists.mp runs
  exact ⟨_, rfl, .refl evm, Nat.le_add_right _ _⟩

/-- Gas that was paid for can be given back. -/
theorem refund_kept {evm : Evm} (frame : Frame) (gas : UInt64) (kept : Kept evm before)
    (room : frame.contract.gas.toNat + gas.toNat < 2 ^ 64) :
    Kept evm (frame.refund before gas).1 ∧
      (frame.refund before gas).2.gas.toNat = frame.contract.gas.toNat + gas.toNat :=
  ⟨kept.note room, toNat_add_of_fine room⟩

theorem finishCall_executes {evm : Evm} {frame : Frame} {extra : Nat} {retOffset retSize : Nat}
    {rest : List Nat} {out : Option Outcome} (kept : Kept evm before)
    (leaves : Leaves before gas out) (paid : gas.toNat ≤ extra)
    (room : frame.contract.gas.toNat + extra < 2 ^ 64)
    (range : InRange frame.scope.mem retOffset retSize) :
    Executes evm frame.contract.gas extra (out.bind (finishCall frame retOffset retSize rest)) := by
  obtain ⟨done, rfl, left, after⟩ := leaves
  have given := UInt64.le_iff_toNat_le.mp left
  obtain ⟨kept', sum⟩ := refund_kept frame done.gas (kept.trans after) (by omega)
  obtain ⟨mem, written⟩ : ∃ mem, (if done.err = none ∨ done.err = some .errExecutionReverted then
      frame.scope.mem.set (uint64 retOffset) (uint64 retSize) done.ret
    else some frame.scope.mem) = some mem := by
    split
    · exact Option.isSome_iff_exists.mp (set_isSome range done.ret)
    · exact ⟨_, rfl⟩
  rw [Option.bind_some, finishCall]
  rw [written, Option.map_some]
  refine ⟨_, rfl, kept', ?_⟩
  dsimp only
  omega

theorem stipended_spec (evm : Evm) (value : Nat) (room : evm.callGasTemp.toNat +
      (if value ≠ 0 then callStipend.toNat else 0) < 2 ^ 64) :
    (stipended evm (u256 value)).1.toNat ≤
        evm.callGasTemp.toNat + (if value ≠ 0 then callStipend.toNat else 0) ∧
      Kept evm (stipended evm (u256 value)).2 := by
  by_cases zero : value = 0
  · subst zero
    exact ⟨Nat.le_refl _, .refl evm⟩
  · rw [if_pos zero] at room ⊢
    obtain ⟨sum, kept⟩ := addIf_spec (decide (u256 value ≠ 0)) callStipend (evm.callGasTemp, evm)
      (.refl evm) room
    refine ⟨?_, kept⟩
    rw [stipended, sum]
    split
    · exact Nat.le_refl _
    · exact Nat.le_add_right _ _

section
variable {S : Type} {m : Machine stateInterface S} {static : Bool} {R : S → S → Prop}
  (guards : Guards m static R) (ctx : Context) {interp : Runner} {evm : Evm} {frame : Frame}
include guards

/-- A call instruction whose areas for the arguments and the result are there: the arguments
can be read, and whatever the call leaves is written back. -/
theorem callArgs {inOffset inSize retOffset retSize extra : Nat} (kept : Kept evm before)
    (covers : max (calcMemSize retOffset retSize) (calcMemSize inOffset inSize) ≤
        frame.scope.mem.store.length ∧
      max (calcMemSize retOffset retSize) (calcMemSize inOffset inSize) ≤ maxMemSize.toNat)
    (paid : gas.toNat ≤ extra) (room : frame.contract.gas.toNat + extra < 2 ^ 64) :
    ∃ args, frame.scope.mem.get (int64 inOffset) (int64 inSize) = some args ∧
      ∀ {call : Action (Option Outcome)} (rest : List Nat),
        Ensures m keeps R call (Leaves before gas) →
          Ensures m keeps R (call >>= fun out => pure (out.bind (finishCall frame retOffset retSize rest)))
            (Executes evm frame.contract.gas extra) := by
  rw [max_le_iff, max_le_iff] at covers
  obtain ⟨args, read⟩ := Option.isSome_iff_exists.mp (get_isSome ⟨covers.1.2, covers.2.2⟩)
  refine ⟨args, read, fun rest calls => guards.bind calls fun out leaves => ?_⟩
  exact guards.pure (finishCall_executes kept leaves paid room ⟨covers.1.1, covers.2.1⟩)

theorem callWithValue_ensures {op : OpCode} (isCall : op = .CALL ∨ op = .CALLCODE)
    {call : Evm → Address → Bytes → UInt64 → Nat → Action (Option Outcome)}
    (calls : ∀ {before : Evm}, Kept evm before → ∀ addr args gas,
      Ensures m keeps R (call before addr args gas (u256 (back frame.scope.stack 2)))
        (Leaves before gas))
    (enough : 7 ≤ frame.scope.stack.length) (covers : Covers frame.scope op)
    (room : frame.contract.gas.toNat + returned evm frame.scope.stack op < 2 ^ 64) :
    Ensures m keeps R (callWithValue evm frame call)
      (Executes evm frame.contract.gas (returned evm frame.scope.stack op)) := by
  have amount : returned evm frame.scope.stack op = evm.callGasTemp.toNat +
      (if back frame.scope.stack 2 ≠ 0 then callStipend.toNat else 0) := by
    rcases isCall with rfl | rfl <;> rfl
  rw [amount] at room ⊢
  obtain ⟨spent, kept⟩ := stipended_spec evm (back frame.scope.stack 2) (by omega)
  obtain ⟨args, read, finish⟩ := callArgs guards kept
    (by rcases isCall with rfl | rfl <;> exact covers _ rfl) spent room
  have made := calls kept (bigToAddress (back frame.scope.stack 1)) args
    (stipended evm (u256 (back frame.scope.stack 2))).1
  obtain ⟨rest, same⟩ := eq_backs_seven enough
  unfold callWithValue
  rw [same]
  dsimp only
  rw [read]
  exact finish rest made

theorem callWithoutValue_ensures {op : OpCode} (isCall : op = .DELEGATECALL ∨ op = .STATICCALL)
    {call : Address → Bytes → UInt64 → Action (Option Outcome)}
    (calls : ∀ addr args gas, Ensures m keeps R (call addr args gas) (Leaves evm gas))
    (enough : 6 ≤ frame.scope.stack.length) (covers : Covers frame.scope op)
    (room : frame.contract.gas.toNat + returned evm frame.scope.stack op < 2 ^ 64) :
    Ensures m keeps R (callWithoutValue evm frame call)
      (Executes evm frame.contract.gas (returned evm frame.scope.stack op)) := by
  have amount : returned evm frame.scope.stack op = evm.callGasTemp.toNat := by
    rcases isCall with rfl | rfl <;> rfl
  rw [amount] at room ⊢
  obtain ⟨args, read, finish⟩ := callArgs guards (.refl evm)
    (by rcases isCall with rfl | rfl <;> exact covers _ rfl) (Nat.le_refl _) room
  obtain ⟨rest, same⟩ := eq_backs_six enough
  unfold callWithoutValue
  rw [same]
  dsimp only
  rw [read]
  exact finish rest (calls _ args _)

omit guards in
theorem createGas_le (gas : UInt64) : createGas ctx gas ≤ gas := by
  unfold createGas
  split
  · have part : gas / 64 ≤ gas := by
      apply UInt64.le_iff_toNat_le.mpr
      rw [UInt64.toNat_div]
      exact Nat.div_le_self _ _
    apply UInt64.le_iff_toNat_le.mpr
    rw [UInt64.toNat_sub_of_le _ _ part]
    omega
  · exact UInt64.le_refl _

theorem opCreate_ensures (runner : RunnerOk m static R interp evm.depth)
    (dynamic : static = false) (enough : 3 ≤ frame.scope.stack.length)
    (covers : Covers frame.scope .CREATE) :
    Ensures m keeps R (opCreate ctx interp evm frame) (Executes evm frame.contract.gas 0) := by
  have flag : static = true → evm.readOnly = true := fun mode => nomatch dynamic.symm.trans mode
  obtain ⟨contract, stack, mem, pc⟩ := frame
  match stack, enough with
  | value :: offset :: size :: rest, _ =>
    obtain ⟨input, read⟩ := Option.isSome_iff_exists.mp (get_isSome (covers _ rfl))
    have share := createGas_le ctx contract.gas
    have paid := UInt64.toNat_sub_of_le _ _ share
    have shareNat := UInt64.le_iff_toNat_le.mp share
    have fits := contract.gas.toNat_lt
    unfold opCreate
    dsimp only at read ⊢
    rw [show mem.get (int64 offset) (int64 size) = some input from read]
    refine guards.bind (create_ensures guards ctx runner flag dynamic _ input _ value)
      fun made leaves => ?_
    obtain ⟨done, same, left, kept⟩ := leaves
    have given := UInt64.le_iff_toNat_le.mp left
    refine guards.pure ?_
    rw [same]
    obtain ⟨kept', sum⟩ := refund_kept
      ⟨{ contract with gas := contract.gas - createGas ctx contract.gas },
        value :: offset :: size :: rest, mem, pc⟩ done.gas kept (by dsimp only; omega)
    refine ⟨_, rfl, kept', ?_⟩
    dsimp only [finishCreate]
    dsimp only at sum
    omega

/-! ### The other instructions with the state -/

omit guards in
theorem executes_plain (effect : Effect) (extra : Nat) :
    Executes evm frame.contract.gas extra (some (frame.after evm effect)) :=
  ⟨_, rfl, .refl evm, Nat.le_add_right _ _⟩

theorem opLog_ensures (dynamic : static = false) (n : Fin 5)
    (enough : 2 ≤ frame.scope.stack.length) (covers : Covers frame.scope (.LOG n)) :
    Ensures m keeps R (opLog ctx evm frame n) (Executes evm frame.contract.gas 0) := by
  obtain ⟨contract, stack, mem, pc⟩ := frame
  match stack, enough with
  | mStart :: mSize :: rest, _ =>
    obtain ⟨data, read⟩ := Option.isSome_iff_exists.mp (get_isSome (covers _ rfl))
    unfold opLog
    dsimp only
    rw [show mem.get (int64 mStart) (int64 mSize) = some data from read]
    refine guards.write dynamic fun _ => ?_
    exact guards.pure (executes_plain _ _)

/-- Every operation that has passed the checks returns. -/
theorem execute_ensures (runner : RunnerOk m static R interp evm.depth)
    (flag : static = true → evm.readOnly = true) (op : OpCode)
    (allowed : static = true → (operation op).writes = false ∧
      (op = .CALL → back frame.scope.stack 2 = 0))
    (enough : (operation op).pops ≤ frame.scope.stack.length) (covers : Covers frame.scope op)
    (room : frame.contract.gas.toNat + returned evm frame.scope.stack op < 2 ^ 64) :
    Ensures m keeps R (execute ctx interp evm frame op)
      (Executes evm frame.contract.gas (returned evm frame.scope.stack op)) := by
  have dynamic := dynamic_of_writes fun mode => (allowed mode).1
  have runnerAt : ∀ {before : Evm}, Kept evm before → RunnerOk m static R interp before.depth :=
    fun kept => kept.depth.symm ▸ runner
  have flagAt : ∀ {before : Evm}, Kept evm before → static = true → before.readOnly = true :=
    fun kept mode => kept.readOnly.trans (flag mode)
  cases op
  case BALANCE | EXTCODESIZE | SLOAD =>
    obtain ⟨contract, stack, mem, pc⟩ := frame
    match stack, enough with
    | slot :: rest, _ =>
      refine guards.read rfl fun answer => ?_
      exact guards.pure (executes_plain _ _)
  case EXTCODECOPY =>
    obtain ⟨contract, stack, mem, pc⟩ := frame
    match stack, enough with
    | addr :: rest, enough =>
      refine guards.read rfl fun code => ?_
      have copied := opCopy_isSome code (Nat.le_of_succ_le_succ enough) (covers _ rfl)
      exact guards.pure (executes_after copied 0)
  case SSTORE =>
    obtain ⟨contract, stack, mem, pc⟩ := frame
    match stack, enough with
    | loc :: val :: rest, _ =>
      refine guards.write (dynamic rfl) fun _ => ?_
      exact guards.pure (executes_plain _ _)
  case SELFDESTRUCT =>
    obtain ⟨contract, stack, mem, pc⟩ := frame
    match stack, enough with
    | beneficiary :: rest, _ =>
      refine guards.read rfl fun balance => ?_
      refine guards.write (dynamic rfl) fun _ => ?_
      refine guards.write (dynamic rfl) fun _ => ?_
      exact guards.pure (executes_plain _ _)
  case LOG n =>
    exact opLog_ensures guards ctx (dynamic rfl) n (le_trans (Nat.le_add_left 2 n) enough) covers
  case CREATE => exact opCreate_ensures guards ctx runner (dynamic rfl) enough covers
  case CALL =>
      have nothing : static = true → u256 (back frame.scope.stack 2) = 0 := by
        intro mode
        rw [(allowed mode).2 rfl]
        rfl
      exact callWithValue_ensures guards (.inl rfl) (fun kept addr args gas =>
        call_ensures guards ctx (runnerAt kept) (flagAt kept) _ addr args gas nothing) enough covers
        room
  case CALLCODE =>
      exact callWithValue_ensures guards (.inr rfl) (fun kept addr args gas =>
        callCode_ensures guards ctx (runnerAt kept) (flagAt kept) _ addr args gas _) enough covers
        room
  case DELEGATECALL =>
      exact callWithoutValue_ensures guards (.inl rfl)
        (fun addr args gas => delegateCall_ensures guards ctx runner flag _ addr args gas) enough
        covers room
  case STATICCALL =>
      exact callWithoutValue_ensures guards (.inr rfl)
        (fun addr args gas => staticCall_ensures guards ctx runner _ addr args gas) enough covers room
  all_goals
    exact guards.pure
      (executes_after (executeLocal_isSome ctx evm frame.contract _ enough covers) 0)

end

/-! ## The interpreter -/

theorem precheck_eq_ok {ctx : Context} {evm : Evm} {stack : List Nat} {op : OpCode} {size : UInt64}
    (passed : precheck ctx evm stack op = .ok size) :
    (operation op).pops ≤ stack.length ∧ restricted ctx evm stack op = false ∧
      requestedMemory stack op = some size := by
  unfold precheck at passed
  split at passed
  · cases passed
  · rename_i enough
    split at passed
    · cases passed
    · split at passed
      · cases passed
      · rename_i unrestricted
        refine ⟨Nat.le_of_not_lt enough, Bool.eq_false_iff.mpr unrestricted, ?_⟩
        split at passed
        · cases passed
        · rename_i requested
          cases passed
          exact requested

/-- Whole words have room for the size that was asked for. -/
theorem memorySize_le_of_requested {stack : List Nat} {op : OpCode} {size : UInt64} {needed : Nat}
    (requested : requestedMemory stack op = some size) (asks : memorySize stack op = some needed) :
    needed ≤ size.toNat := by
  rw [requestedMemory, asks] at requested
  obtain ⟨memSize, converted, product⟩ := Option.bind_eq_some_iff.mp requested
  unfold bigUint64 at converted
  split at converted
  · rename_i small
    cases converted
    calc needed = (uint64 needed).toNat := (Nat.mod_eq_of_lt small).symm
      _ ≤ (toWordSize (uint64 needed)).toNat * 32 := le_toWordSize _
      _ = size.toNat := (toNat_safeMul product).symm
  · cases converted

/-- What was paid for is there after `Resize`. -/
theorem covers_of_priced {evm : Evm} {scope : Scope} {op : OpCode} {size : UInt64} {charge : Charge}
    (requested : requestedMemory scope.stack op = some size)
    (priced : Priced evm scope.stack size op charge) (paid : charge.cost = some cost) :
    Covers { scope with mem := charge.mem.resize size } op := by
  intro needed asks
  have fits := memorySize_le_of_requested requested asks
  have bounded : size ≤ maxMemSize := priced.bounded paid (Option.isSome_of_eq_some asks)
  exact ⟨le_trans fits (length_resize _ _), le_trans fits (UInt64.le_iff_toNat_le.mp bounded)⟩

/-- One round gives no gas and, if the frame goes on, takes some. -/
def Steps (evm : Evm) (gas : UInt64) : Option Step → Prop
  | none => False
  | some (.halt out) => out.gas ≤ gas ∧ Kept evm out.evm
  | some (.next after frame) => frame.contract.gas.toNat < gas.toNat ∧ Kept evm after

theorem conclude_steps {evm : Evm} {op : OpCode} {done : Executed} (kept : Kept evm done.evm)
    (within : done.frame.contract.gas ≤ gas)
    (costs : ends op = false → done.frame.contract.gas.toNat < gas.toNat) :
    Steps evm gas (some (conclude op done)) := by
  have after : Kept evm (if (operation op).returns = true then { done.evm with returnData := done.res }
      else done.evm) := by
    split
    · exact kept.congr rfl rfl rfl
    · exact kept
  unfold conclude
  dsimp only
  split
  · exact ⟨within, after⟩
  · split
    · exact ⟨within, after⟩
    · rename_i goesOn
      split
      · exact ⟨within, after⟩
      · rename_i runs
        have less := costs (by simp [ends, goesOn, runs])
        split
        · exact ⟨less, after⟩
        · exact ⟨less, after⟩

section
variable {S : Type} {m : Machine stateInterface S} {static : Bool} {R : S → S → Prop}
  (guards : Guards m static R) (ctx : Context) (rules : static = true → ctx.rules.isByzantium = true)
  {interp : Runner} {evm : Evm} {frame : Frame}
include guards

theorem payAndExecute_ensures (runner : RunnerOk m static R interp evm.depth)
    (flag : static = true → evm.readOnly = true) (op : OpCode) (size : UInt64)
    (allowed : static = true → (operation op).writes = false ∧
      (op = .CALL → back frame.scope.stack 2 = 0))
    (enough : (operation op).pops ≤ frame.scope.stack.length)
    (requested : requestedMemory frame.scope.stack op = some size) :
    Ensures m keeps R (payAndExecute ctx interp op size evm frame)
      (Steps evm frame.contract.gas) := by
  unfold payAndExecute
  refine guards.bind (gasCost_ensures guards ctx frame.contract op
    fun mode => (allowed mode).1) fun charge priced => ?_
  split
  · exact guards.pure ⟨UInt64.le_refl _, priced.kept⟩
  · rename_i contract paid
    obtain ⟨cost, price, used⟩ := Option.bind_eq_some_iff.mp paid
    have spent := useGas_eq_some used
    have back := priced.covers price
    have room : contract.gas.toNat + returned charge.evm frame.scope.stack op < 2 ^ 64 := by
      have small := frame.contract.gas.toNat_lt
      omega
    refine guards.bind (execute_ensures guards ctx (priced.kept.depth.symm ▸ runner)
      (fun mode => priced.kept.readOnly.trans (flag mode)) op allowed enough
      (covers_of_priced requested priced price) room) fun out executed => ?_
    obtain ⟨done, rfl, kept, left⟩ := executed
    dsimp only at left
    refine guards.pure (conclude_steps (priced.kept.trans kept) ?_ fun goesOn => ?_)
    · rw [UInt64.le_iff_toNat_le]
      omega
    · have more := priced.costs price goesOn
      omega

include rules in
theorem step_ensures (runner : RunnerOk m static R interp evm.depth)
    (flag : static = true → evm.readOnly = true) :
    Ensures m keeps R (step ctx interp evm frame) (Steps evm frame.contract.gas) := by
  unfold step
  dsimp only
  split
  · exact guards.pure ⟨UInt64.le_refl _, .refl evm⟩
  · rename_i op _
    split
    · exact guards.pure ⟨UInt64.le_refl _, .refl evm⟩
    · rename_i size passed
      obtain ⟨enough, unrestricted, requested⟩ := precheck_eq_ok passed
      refine payAndExecute_ensures guards ctx runner flag op size (fun mode => ?_) enough requested
      simpa [restricted, rules mode, flag mode] using unrestricted

include rules in
/-- The frame stays within its initial gas and ends before the rounds do. -/
theorem loop_ensures (evm : Evm) (runner : RunnerOk m static R interp evm.depth)
    (flag : static = true → evm.readOnly = true) (initial : UInt64) (rounds : Nat) :
    ∀ {now : Evm} {frame : Frame}, Kept evm now → frame.contract.gas ≤ initial →
      frame.contract.gas.toNat < rounds →
        Ensures m keeps R (loop ctx interp initial rounds now frame) (Returns evm initial) := by
  induction rounds with
  | zero =>
    intro now frame _ _ enough
    exact absurd enough (Nat.not_lt_zero _)
  | succ rounds ih =>
    intro now frame kept within enough
    have noted : Kept evm
        { now.note (.frame initial frame.contract.gas) with loads := now.loads + 1 } :=
      (kept.noteFrame within).congr rfl rfl rfl
    rw [loop]
    split
    · exact guards.pure ⟨_, rfl, within, noted⟩
    · refine guards.bind (step_ensures guards ctx rules (noted.depth.symm ▸ runner)
        fun mode => noted.readOnly.trans (flag mode)) fun stepped steps => ?_
      match stepped, steps with
      | some (.halt out), ⟨less, after⟩ =>
        have final := UInt64.le_trans less within
        exact guards.pure ⟨_, rfl, final, (noted.trans after).noteFrame final⟩
      | some (.next later next), ⟨less, after⟩ =>
        refine ih (noted.trans after) ?_ (by omega)
        rw [UInt64.le_iff_toNat_le] at within ⊢
        omega

include rules in
/-- With nesting for every depth a call may reach, `Run` returns. -/
theorem interpreterRun_ok (nesting : Nat) : ∀ {depth : Nat}, callCreateDepth + 2 ≤ nesting + depth →
    RunnerOk m static R (interpreterRun ctx nesting) depth := by
  induction nesting with
  | zero =>
    intro depth deep evm contract input _ shallow
    omega
  | succ nesting ih =>
    intro depth deep evm contract input same shallow flag
    rw [interpreterRun]
    split
    · exact guards.pure ⟨_, rfl, UInt64.le_refl _, (Kept.refl evm).congr rfl rfl rfl⟩
    · have inner : RunnerOk m static R (interpreterRun ctx nesting) (evm.depth + 1) :=
        ih (by omega)
      refine guards.bind (loop_ensures guards ctx rules
        { evm with depth := evm.depth + 1, returnData := [] } inner flag contract.gas
        (contract.gas.toNat + 1) (Kept.refl _) (UInt64.le_refl _) (Nat.lt_succ_self _))
        fun out returns => ?_
      obtain ⟨done, rfl, less, kept⟩ := returns
      obtain ⟨depth, readOnly, account⟩ := kept
      refine guards.pure ⟨_, rfl, less, ?_, readOnly, account⟩
      dsimp only at depth ⊢
      omega

include rules in
theorem interpreter_ok (depth : Nat) : RunnerOk m static R (interpreter ctx) depth := by
  intro evm contract input same shallow flag
  subst same
  exact interpreterRun_ok guards ctx rules _ (by omega) evm contract input rfl shallow flag

end

/-! ## Any state -/

theorem guards_of_any {S : Type} (m : Machine stateInterface S) :
    Guards m false fun _ _ => True where
  refl := fun _ => trivial
  trans := fun _ _ => trivial
  reverts := fun _ => trivial
  reads := fun _ _ => trivial
  writes := fun _ _ _ => trivial
  addsNothing := fun _ _ => trivial
  takesNothing := fun _ _ => trivial
  creates := fun _ _ _ => trivial

/-- Whatever the state answers, a call or creation returns at most the gas it was given,
every frame of it stays within its initial gas, and no sum of gas wraps around. -/
theorem evm_never_creates_gas {S : Type} (m : Machine stateInterface S) (s : S) (ctx : Context)
    (evm : Evm) (input : Bytes) (gas : UInt64) :
    (∀ caller addr value,
      Leaves evm gas ((call ctx (interpreter ctx) evm caller addr input gas value).run m keeps s).2) ∧
    (∀ caller addr value, Leaves evm gas
      ((callCode ctx (interpreter ctx) evm caller addr input gas value).run m keeps s).2) ∧
    (∀ parent addr, Leaves evm gas
      ((delegateCall ctx (interpreter ctx) evm parent addr input gas).run m keeps s).2) ∧
    (∀ caller addr, Leaves evm gas
      ((staticCall ctx (interpreter ctx) evm caller addr input gas).run m keeps s).2) ∧
    (∀ caller value, Leaves evm gas
      ((create ctx (interpreter ctx) evm caller input gas value).run m keeps s).2.1) := by
  have guards := guards_of_any m
  have runner : RunnerOk m false _ (interpreter ctx) evm.depth :=
    interpreter_ok guards ctx (fun mode => nomatch mode) evm.depth
  have flag : false = true → evm.readOnly = true := fun mode => nomatch mode
  refine ⟨fun caller addr value => ?_, fun caller addr value => ?_, fun parent addr => ?_,
    fun caller addr => ?_, fun caller value => ?_⟩
  · exact (call_ensures guards ctx runner flag caller addr input gas (fun mode => nomatch mode) s).2
  · exact (callCode_ensures guards ctx runner flag caller addr input gas value s).2
  · exact (delegateCall_ensures guards ctx runner flag parent addr input gas s).2
  · exact (staticCall_ensures guards ctx runner caller addr input gas s).2
  · exact (create_ensures guards ctx runner flag rfl caller input gas value s).2

end Linkeye.Vm.GasBound
