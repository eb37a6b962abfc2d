import Linkeye.Vm.ReadOnly

/-!
# Failed calls leave no trace

A frame that ends in an error goes back to its snapshot, and what comes before the
frame only reads.  So a call that fails is not seen in the database, whatever code it
has run and whatever calls that code has made.
-/

set_option autoImplicit false

namespace Linkeye.Vm.FailedCalls

open Common.Types Core.Journaling Core.Rewind Lib.Programs
open Gas GasBound Interpreter ReadOnly

/-- Where the frame ends in an error, it is undone. -/
def Undone (body : Action (Option Outcome)) : Prop :=
  ∀ s out, (body.run stateMachine keeps s).2 = some out → out.err ≠ none → out.reverts = true

/-- No call tells the state after an error from the one before. -/
def Traceless (p : Action (Option Outcome)) : Prop :=
  ∀ s out, Tidy s → (p.run stateMachine keeps s).2 = some out → out.err ≠ none →
    Alike s (p.run stateMachine keeps s).1

theorem Traceless.within {body : Action (Option Outcome)} (undone : Undone body) :
    Traceless (Prog.within body) := by
  intro s out tidy returned failed
  obtain ⟨⟨new, marks, reached⟩, _⟩ := steps_run keeps body s tidy
  have result : (body.run stateMachine keeps s).2 = some out := returned
  have dropped : keeps (body.run stateMachine keeps s).2 = false := by
    rw [result, keeps, undone s out result failed]
    rfl
  rw [Prog.within, Prog.run]
  simp only [dropped]
  exact (reached_revertToSnapshot reached).undone

section
variable (ctx : Context) (interp : Runner) (evm : Evm) (caller addr : Address) (input : Bytes)
  (gas : UInt64) (value : Nat)

theorem undone_runCode (contract : Bytes → Contract) :
    Undone (runCode ctx interp evm addr input contract) := by
  intro s out returned failed
  simp only [runCode, Prog.run_bind, Prog.run_pure] at returned
  obtain ⟨ran, _, rfl⟩ := Option.map_eq_some_iff.mp returned
  rw [settle] at failed ⊢
  cases err : ran.err with
  | none =>
    rw [err] at failed
    exact absurd rfl failed
  | some => rfl

theorem undone_callFrame : Undone (callFrame ctx interp evm caller addr input gas value) := by
  intro s out returned failed
  rw [callFrame, Prog.run_bind] at returned
  split at returned
  · rw [Prog.run_bind] at returned
    exact undone_runCode _ _ _ _ _ _ _ _ returned failed
  · split at returned
    · cases returned
      exact absurd rfl failed
    · simp only [Prog.run_bind] at returned
      exact undone_runCode _ _ _ _ _ _ _ _ returned failed

/-- The ways into the code of an account. -/
inductive Calling : Action (Option Outcome) → Prop where
  | call : Calling (call ctx interp evm caller addr input gas value)
  | callCode : Calling (callCode ctx interp evm caller addr input gas value)
  | delegateCall (parent : Contract) : Calling (delegateCall ctx interp evm parent addr input gas)
  | staticCall : Calling (staticCall ctx interp evm caller addr input gas)

variable {p : Action (Option Outcome)}

theorem Traceless.unless (traceless : Traceless p) {nested deep : Prop} [Decidable nested]
    [Decidable deep] : Traceless (if nested then return early evm gas none
      else if deep then return early evm gas (some .errDepth) else p) := by
  split
  · exact fun s _ _ _ _ => .refl s
  · split
    · exact fun s _ _ _ _ => .refl s
    · exact traceless

theorem Traceless.paid (traceless : Traceless p) :
    Traceless (do
      let balance ← ask (.getBalance caller)
      if balance < (value : Int) then return early evm gas (some .errInsufficientBalance)
      else p) := by
  intro s out tidy returned failed
  have read := alike_getStateObject s caller
  rw [Prog.run_bind] at returned ⊢
  split at returned
  · rw [if_pos ‹_›]
    exact read
  · rw [if_neg ‹_›]
    exact read.trans (traceless _ out (steps_getStateObject s caller tidy).2 returned failed)

variable {ctx interp evm caller addr input gas value}

theorem traceless_of_calling (calling : Calling ctx interp evm caller addr input gas value p) :
    Traceless p := by
  cases calling with
  | call => exact .unless _ _ (.paid _ _ _ _ (.within (undone_callFrame _ _ _ _ _ _ _ _)))
  | callCode => exact .unless _ _ (.paid _ _ _ _ (.within (undone_runCode _ _ _ _ _ _)))
  | delegateCall => exact .unless _ _ (.within (undone_runCode _ _ _ _ _ _))
  | staticCall =>
    refine .unless _ _ fun s out tidy returned failed => ?_
    rw [Prog.run_bind] at returned ⊢
    obtain ⟨inner, ran, rfl⟩ := Option.map_eq_some_iff.mp returned
    refine Traceless.within (undone_runCode _ _ _ _ _ _) s inner tidy ran ?_
    rw [resetReadOnly] at failed
    split at failed <;> exact failed

/-- A call that ends in an error leaves every answer of the database and every log as it
was, whatever the interpreter has done in the frame. -/
theorem failed_call_leaves_no_trace {s : StateDB} (session : Session s)
    (calling : Calling ctx interp evm caller addr input gas value p) {out : Outcome}
    (returned : (p.run stateMachine keeps s).2 = some out) (failed : out.err ≠ none) :
    (∀ c, reading c = true → ((p.run stateMachine keeps s).1.call c).2 = (s.call c).2) ∧
      ∀ hash, (p.run stateMachine keeps s).1.logs.getD hash [] = s.logs.getD hash [] := by
  have alike := traceless_of_calling calling s out (tidy_of_session session) returned failed
  refine ⟨fun c reads => ?_, alike.logs⟩
  cases c with
  | getBalance a | getNonce a | getCode a | getState a | hasSuicided a | exist a | empty a =>
    have held := alike.lookup a
    dsimp only [lookup] at held
    dsimp only [StateDB.call, StateDB.read]
    rw [held]
  | getRefund => exact alike.refund
  | _ => cases reads

end

/-- The code stores one and then has nothing to jump to. -/
def failingState : StateDB :=
  .new ((∅ : Std.ExtTreeMap Address Account).insert writer
    { Account.fresh with code := [0x60, 1, 0x60, 0, 0x55, 0x56] })

def failingRun : StateDB × Option Outcome :=
  (call byzantium (interpreter byzantium) idle zeroAddress writer [] 100000 0).run stateMachine
    keeps failingState

theorem failed_call_leaves_no_trace_jump : ∃ out, failingRun.2 = some out ∧ out.err ≠ none ∧
    (failingRun.1.call (.getState writer (FixedBytes.zero 32))).2 =
      (failingState.call (.getState writer (FixedBytes.zero 32))).2 := by
  have fails : failingRun.2.any (fun out => out.err.isSome) = true := by decide +kernel
  obtain ⟨out, returned, err⟩ := (Option.any_eq_true _ _).mp fails
  have failed : out.err ≠ none := Option.isSome_iff_ne_none.mp err
  exact ⟨out, returned, failed,
    (failed_call_leaves_no_trace (Session.new _) .call returned failed).1 _ rfl⟩

end Linkeye.Vm.FailedCalls
