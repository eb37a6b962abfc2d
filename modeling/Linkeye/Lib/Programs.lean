import Mathlib.Logic.Basic

/-!
# Programs that call a machine

A program sees of the machine only the answers to its calls.  Part of a program
may be a frame: what a frame has done is undone if its result says so.
-/

set_option autoImplicit false

namespace Linkeye.Lib.Programs

/-- The calls that a machine takes, and what it answers. -/
structure Interface where
  Call : Type
  Answer : Call → Type

/-- A machine answers calls, and goes back to a mark that it has given. -/
structure Machine (I : Interface) (S : Type) where
  call : (c : I.Call) → S → S × I.Answer c
  mark : S → Nat
  revert : Nat → S → S

/-- Programs with results in `α` whose frames have results in `F`. -/
inductive Prog (I : Interface) (F : Type) : Type → Type 1 where
  | done {α : Type} (a : α) : Prog I F α
  | call {α : Type} (c : I.Call) (next : I.Answer c → Prog I F α) : Prog I F α
  | frame {α : Type} (body : Prog I F F) (next : F → Prog I F α) : Prog I F α

namespace Prog
variable {I : Interface} {F S α β : Type}

def bind : {α : Type} → Prog I F α → (α → Prog I F β) → Prog I F β
  | _, .done a, k => k a
  | _, .call c next, k => .call c fun answer => (next answer).bind k
  | _, .frame body next, k => .frame body fun result => (next result).bind k

instance : Monad (Prog I F) where
  pure := .done
  bind := Prog.bind

def ask (c : I.Call) : Prog I F (I.Answer c) := .call c .done

def within (body : Prog I F F) : Prog I F F := .frame body .done

def run (m : Machine I S) (keeps : F → Bool) : {α : Type} → Prog I F α → S → S × α
  | _, .done a, s => (s, a)
  | _, .call c next, s => (next (m.call c s).2).run m keeps (m.call c s).1
  | _, .frame body next, s =>
    let inner := body.run m keeps s
    let after := if keeps inner.2 = true then inner.1 else m.revert (m.mark s) inner.1
    (next inner.2).run m keeps after

section
variable {m : Machine I S} (keeps : F → Bool)

@[simp] theorem run_pure (a : α) (s : S) : (pure a : Prog I F α).run m keeps s = (s, a) := rfl

@[simp] theorem run_bind (p : Prog I F α) (k : α → Prog I F β) (s : S) :
    (p >>= k).run m keeps s = (k (p.run m keeps s).2).run m keeps (p.run m keeps s).1 := by
  change (p.bind k).run m keeps s = _
  induction p generalizing s with
  | done a => rfl
  | call c next ih => exact ih _ k _
  | frame body next _ rest => exact rest _ k _

/-- A relation that every call and every undone frame keeps to relates the start
of a run to its end. -/
theorem run_reaches {R : S → S → Prop} (refl : ∀ s, R s s)
    (trans : ∀ {r s t}, R r s → R s t → R r t) (calls : ∀ c s, R s (m.call c s).1)
    (reverts : ∀ {s t}, R s t → R s (m.revert (m.mark s) t)) (p : Prog I F α) (s : S) :
    R s (p.run m keeps s).1 := by
  induction p generalizing s with
  | done a => exact refl s
  | call c next ih => exact trans (calls c s) (ih _ _)
  | frame body next inner rest =>
    rw [run]
    split
    · exact trans (inner s) (rest _ _)
    · exact trans (reverts (inner s)) (rest _ _)

/-- Two runs of one program from states that no call tells apart have the same
result and end in such states. -/
theorem run_agrees {R Sim : S → S → Prop} (refl : ∀ s, R s s)
    (trans : ∀ {r s t}, R r s → R s t → R r t) (calls : ∀ c s, R s (m.call c s).1)
    (reverts : ∀ {s t}, R s t → R s (m.revert (m.mark s) t))
    (answers : ∀ c {s t}, Sim s t →
      (m.call c s).2 = (m.call c t).2 ∧ Sim (m.call c s).1 (m.call c t).1)
    (undone : ∀ {s t s' t'}, Sim s t → R s s' → R t t' → Sim s' t' →
      Sim (m.revert (m.mark s) s') (m.revert (m.mark t) t'))
    (p : Prog I F α) {s t : S} (alike : Sim s t) :
    (p.run m keeps s).2 = (p.run m keeps t).2 ∧
      Sim (p.run m keeps s).1 (p.run m keeps t).1 := by
  induction p generalizing s t with
  | done a => exact ⟨rfl, alike⟩
  | call c next ih =>
    obtain ⟨answer, after⟩ := answers c alike
    rw [run, run, answer]
    exact ih _ after
  | frame body next inner rest =>
    obtain ⟨result, after⟩ := inner alike
    have left := run_reaches keeps refl trans calls reverts body s
    have right := run_reaches keeps refl trans calls reverts body t
    rw [run, run]
    rw [result]
    split
    · exact rest _ after
    · exact rest _ (undone alike left right after)

end

/-! ## What every run ensures -/

/-- A relation between states that holds along a run: going back to a mark keeps it. -/
structure Closed (m : Machine I S) (R : S → S → Prop) : Prop where
  refl : ∀ s, R s s
  trans : ∀ {r s t}, R r s → R s t → R r t
  reverts : ∀ {s t}, R s t → R s (m.revert (m.mark s) t)

/-- From every state, the run keeps to the relation and its result has the property. -/
def Ensures (m : Machine I S) (keeps : F → Bool) (R : S → S → Prop) (p : Prog I F α)
    (Q : α → Prop) : Prop :=
  ∀ s, R s (p.run m keeps s).1 ∧ Q (p.run m keeps s).2

section
variable {m : Machine I S} {keeps : F → Bool} {R : S → S → Prop} {p : Prog I F α}
  {P Q : α → Prop}

theorem Closed.pure (closed : Closed m R) {a : α} (holds : Q a) :
    Ensures m keeps R (pure a) Q := by
  intro s
  exact ⟨closed.refl s, holds⟩

theorem Closed.bind (closed : Closed m R) {k : α → Prog I F β} {Q : β → Prop}
    (first : Ensures m keeps R p P) (rest : ∀ a, P a → Ensures m keeps R (k a) Q) :
    Ensures m keeps R (p >>= k) Q := by
  intro s
  obtain ⟨related, holds⟩ := first s
  obtain ⟨further, result⟩ := rest _ holds (p.run m keeps s).1
  rw [run_bind]
  exact ⟨closed.trans related further, result⟩

theorem Closed.unless (closed : Closed m R) {c : Prop} [Decidable c] {a : α} (early : Q a)
    (rest : ¬ c → Ensures m keeps R p Q) : Ensures m keeps R (if c then Pure.pure a else p) Q := by
  split
  · exact closed.pure early
  · exact rest ‹_›

/-- Whether or not a frame is undone, its result is the same. -/
theorem Closed.within (closed : Closed m R) {body : Prog I F F} {Q : F → Prop}
    (inner : Ensures m keeps R body Q) : Ensures m keeps R (within body) Q := by
  intro s
  obtain ⟨related, result⟩ := inner s
  rw [Prog.within, run]
  split
  · exact ⟨related, result⟩
  · exact ⟨closed.reverts related, result⟩

theorem Ensures.ask {c : I.Call} {Q : I.Answer c → Prop} (kept : ∀ s, R s (m.call c s).1)
    (answers : ∀ a, Q a) : Ensures m keeps R (ask c) Q := by
  intro s
  exact ⟨kept s, answers _⟩

end

end Prog

end Linkeye.Lib.Programs
