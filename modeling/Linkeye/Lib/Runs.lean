import Mathlib

/-!
# Runs of a transition system

A system starts in one of its initial states and takes labelled steps.  The
states of a run are those reached when every step also meets a condition on the
state before it and its label; an invariant has to be kept by such steps only.
-/

set_option autoImplicit false

namespace Linkeye.Lib.Runs

section
variable {σ l : Type}

structure System (σ l : Type) where
  init : σ → Prop
  enabled : σ → l → Prop
  next : σ → l → σ

/-- The states of the runs whose steps all meet `condition`. -/
inductive Reachable (sys : System σ l) (condition : σ → l → Prop) : σ → Prop where
  | init {s : σ} (initial : sys.init s) : Reachable sys condition s
  | step {s : σ} (label : l) (reached : Reachable sys condition s)
      (enabled : sys.enabled s label) (holds : condition s label) :
      Reachable sys condition (sys.next s label)

variable {sys : System σ l} {condition : σ → l → Prop}

theorem Reachable.invariant {s : σ} (inv : σ → Prop) (reached : Reachable sys condition s)
    (base : ∀ s, sys.init s → inv s)
    (preserved : ∀ s label, inv s → sys.enabled s label → condition s label →
      inv (sys.next s label)) : inv s := by
  induction reached with
  | init initial => exact base _ initial
  | step label _ enabled holds ih => exact preserved _ label ih enabled holds

/-- Every step of a concrete run may be taken. -/
def Admits (sys : System σ l) (condition : σ → l → Prop) : σ → List l → Prop
  | _, [] => True
  | s, label :: rest =>
    sys.enabled s label ∧ condition s label ∧ Admits sys condition (sys.next s label) rest

theorem Reachable.run {s : σ} (reached : Reachable sys condition s) (labels : List l)
    (admitted : Admits sys condition s labels) :
    Reachable sys condition (labels.foldl sys.next s) := by
  induction labels generalizing s with
  | nil => exact reached
  | cons label rest ih =>
    obtain ⟨enabled, holds, later⟩ := admitted
    exact ih (.step label reached enabled holds) later

instance Admits.decidable [∀ s label, Decidable (sys.enabled s label)]
    [∀ s label, Decidable (condition s label)] (s : σ) (labels : List l) :
    Decidable (Admits sys condition s labels) :=
  match labels with
  | [] => .isTrue trivial
  | label :: rest =>
    have := Admits.decidable (sys.next s label) rest
    inferInstanceAs (Decidable (_ ∧ _ ∧ _))

/-- An executable check of every step of a concrete run. -/
def checksRun (next : σ → l → σ) (check : σ → l → Bool) : σ → List l → Bool
  | _, [] => true
  | s, label :: rest => check s label && checksRun next check (next s label) rest

theorem admits_of_checksRun {check : σ → l → Bool} (labels : List l) (s : σ)
    (sound : ∀ label ∈ labels, ∀ s, check s label = true →
      sys.enabled s label ∧ condition s label)
    (checked : checksRun sys.next check s labels = true) : Admits sys condition s labels := by
  induction labels generalizing s with
  | nil => trivial
  | cons label rest ih =>
    rw [checksRun, Bool.and_eq_true] at checked
    obtain ⟨enabled, holds⟩ := sound label List.mem_cons_self s checked.1
    refine ⟨enabled, holds, ih _ ?_ checked.2⟩
    intro other member
    exact sound other (List.mem_cons_of_mem _ member)

/-- A run that evaluation checks, from a start that evaluation finds. -/
theorem exists_run {check : σ → l → Bool} {p : σ → Bool} (start : Option σ) (labels : List l)
    (initial : ∀ s, start = some s → sys.init s)
    (sound : ∀ label ∈ labels, ∀ s, check s label = true →
      sys.enabled s label ∧ condition s label)
    (checked : start.any (fun s =>
      checksRun sys.next check s labels && p (labels.foldl sys.next s)) = true) :
    ∃ s, Reachable sys condition s ∧ p s = true := by
  obtain ⟨s, found, run⟩ := (Option.any_eq_true _ _).mp checked
  rw [Bool.and_eq_true] at run
  have reached : Reachable sys condition s := .init (initial s found)
  exact ⟨_, reached.run labels (admits_of_checksRun labels s sound run.1), run.2⟩

/-- No step of the run is one that `avoided` names. -/
def Never (next : σ → l → σ) (avoided : σ → l → Prop) : σ → List l → Prop
  | _, [] => True
  | s, label :: rest => ¬ avoided s label ∧ Never next avoided (next s label) rest

/-- The run has a marked step, and none that `avoided` names after it. -/
def Since (next : σ → l → σ) (marked avoided : σ → l → Prop) (s : σ) (labels : List l) : Prop :=
  ∃ before label later, labels = before ++ label :: later ∧
    marked (before.foldl next s) label ∧ Never next avoided (next (before.foldl next s) label) later

theorem Since.cons {next : σ → l → σ} {marked avoided : σ → l → Prop} {s : σ} {label : l}
    {labels : List l} (since : Since next marked avoided (next s label) labels) :
    Since next marked avoided s (label :: labels) := by
  obtain ⟨before, middle, later, rfl, mark, never⟩ := since
  exact ⟨label :: before, middle, later, rfl, mark, never⟩

/-- What holds at the end of a run held from the start, or a marked step made
it hold; no step to be avoided came later. -/
theorem Admits.since {inv held : σ → Prop} {marked avoided : σ → l → Prop}
    (stepped : ∀ s label, inv s → sys.enabled s label → condition s label →
      inv (sys.next s label) ∧
        (held (sys.next s label) → marked s label ∨ held s ∧ ¬ avoided s label))
    (labels : List l) {s : σ} (before : inv s) (admitted : Admits sys condition s labels)
    (final : held (labels.foldl sys.next s)) :
    Since sys.next marked avoided s labels ∨ held s ∧ Never sys.next avoided s labels := by
  induction labels generalizing s with
  | nil => exact .inr ⟨final, trivial⟩
  | cons label rest ih =>
    obtain ⟨enabled, holds, later⟩ := admitted
    obtain ⟨kept, origin⟩ := stepped s label before enabled holds
    rcases ih kept later final with since | ⟨held, never⟩
    · exact .inl since.cons
    · rcases origin held with mark | ⟨already, apart⟩
      · exact .inl ⟨[], label, rest, rfl, mark, never⟩
      · exact .inr ⟨already, apart, never⟩

theorem foldlM_keeps {ε : Type} {f : σ → l → Except ε σ} (inv : σ → Prop)
    (kept : ∀ s label t, inv s → f s label = .ok t → inv t) (labels : List l) {s t : σ}
    (before : inv s) (run : labels.foldlM f s = .ok t) : inv t := by
  induction labels generalizing s with
  | nil =>
    cases run
    exact before
  | cons label rest ih =>
    cases first : f s label with
    | error err => simp [List.foldlM_cons, first, bind, Except.bind] at run
    | ok middle =>
      simp only [List.foldlM_cons, first, bind, Except.bind] at run
      exact ih (kept s label middle before first) run

theorem kept_by_moves {move : σ → σ → Prop} {s t : σ} (inv : σ → Prop)
    (kept : ∀ a b, move a b → inv a → inv b) (moves : Relation.ReflTransGen move s t)
    (before : inv s) : inv t := by
  induction moves with
  | refl => exact before
  | tail _ move ih => exact kept _ _ move ih

end

end Linkeye.Lib.Runs
