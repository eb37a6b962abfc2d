import Mathlib

/-!
# Votes and a tally kept beside them

Members vote to admit or to expel an account.  The tally holds, for each account with
votes, their direction and number.  It is kept up to date vote by vote; `Agrees` says
that it is what the list of votes makes up.
-/

set_option autoImplicit false

namespace Linkeye.Lib.Tallies

structure Ballot (A : Type) where
  voter : A
  subject : A
  authorize : Bool

structure Box (A : Type) where
  votes : List (Ballot A)
  tally : A → Option (Bool × Nat)

section
variable {A : Type} [DecidableEq A]

def count (votes : List (Ballot A)) (a : A) : Nat := votes.countP fun v => v.subject = a

/-- The tally that votes make up: an outsider can be admitted, a member expelled. -/
def counts (member : A → Bool) (votes : List (Ballot A)) (a : A) : Option (Bool × Nat) :=
  if count votes a = 0 then none else some (!member a, count votes a)

structure Agrees (member : A → Bool) (box : Box A) : Prop where
  counted : box.tally = counts member box.votes
  aligned : ∀ v ∈ box.votes, v.authorize = !member v.subject
  single : box.votes.Pairwise fun v w => ¬ (v.voter = w.voter ∧ v.subject = w.subject)
  voters : ∀ v ∈ box.votes, member v.voter = true

def credit (tally : A → Option (Bool × Nat)) (a : A) (authorize : Bool) : A → Option (Bool × Nat) :=
  Function.update tally a
    (match tally a with
      | some (direction, n) => some (direction, n + 1)
      | none => some (authorize, 1))

def debit (tally : A → Option (Bool × Nat)) (a : A) (authorize : Bool) :
    A → Option (Bool × Nat) :=
  match tally a with
  | none => tally
  | some (direction, n) =>
    if direction ≠ authorize then tally
    else Function.update tally a (if 1 < n then some (direction, n - 1) else none)

namespace Box

/-- The earlier vote of a voter on a subject is taken back. -/
def discard (box : Box A) (voter subject : A) : Box A :=
  let earlier := fun v : Ballot A => decide (v.voter = voter ∧ v.subject = subject)
  match box.votes.find? earlier with
  | none => box
  | some v => ⟨box.votes.eraseP earlier, debit box.tally v.subject v.authorize⟩

def record (box : Box A) (v : Ballot A) : Box A :=
  ⟨box.votes ++ [v], credit box.tally v.subject v.authorize⟩

/-- All votes of a voter are taken back. -/
def withdraw (box : Box A) (voter : A) : Box A where
  votes := box.votes.filter fun v => decide (v.voter ≠ voter)
  tally := (box.votes.filter fun v => decide (v.voter = voter)).foldl
    (fun tally v => debit tally v.subject v.authorize) box.tally

/-- The votes on a subject are thrown away. -/
def close (box : Box A) (subject : A) : Box A where
  votes := box.votes.filter fun v => decide (v.subject ≠ subject)
  tally := Function.update box.tally subject none

end Box

/-! ## Counting -/

section
variable {member : A → Bool} {votes rest : List (Ballot A)} {a : A}

theorem counts_congr (same : ∀ b, count votes b = count rest b) :
    counts member votes = counts member rest := by
  funext b
  rw [counts, counts, same]

theorem debit_counts (own : count votes a = count rest a + 1)
    (others : ∀ b, b ≠ a → count votes b = count rest b) :
    debit (counts member votes) a (!member a) = counts member rest := by
  have held : counts member votes a = some (!member a, count rest a + 1) := by
    rw [counts, own, if_neg (Nat.succ_ne_zero _)]
  funext b
  simp only [debit, held, ne_eq, not_true_eq_false, if_false]
  by_cases same : b = a
  · subst same
    rw [Function.update_self, counts, Nat.add_sub_cancel]
    split_ifs with more none none
    · omega
    · rfl
    · rfl
    · omega
  · rw [Function.update_of_ne same, counts, counts, others b same]

theorem count_append (votes rest : List (Ballot A)) (a : A) :
    count (votes ++ rest) a = count votes a + count rest a :=
  List.countP_append

theorem count_cons (v : Ballot A) (votes : List (Ballot A)) (a : A) :
    count (v :: votes) a = count votes a + if v.subject = a then 1 else 0 := by
  simp [count, List.countP_cons]

theorem credit_counts {v : Ballot A} (direction : v.authorize = !member v.subject) :
    credit (counts member votes) v.subject v.authorize = counts member (votes ++ [v]) := by
  funext b
  by_cases same : b = v.subject
  · subst same
    rw [credit, Function.update_self, counts, counts, count_append, count_cons, if_pos rfl]
    split
    · rename_i found
      split at found
      · cases found
      · cases found
        rfl
    · rename_i absent
      split at absent
      · rename_i zero
        rw [zero, direction]
        rfl
      · cases absent
  · rw [credit, Function.update_of_ne same, counts, counts, count_append, count_cons,
      if_neg (Ne.symm same)]
    rfl

theorem foldl_debit_counts (gone : List (Ballot A))
    (aligned : ∀ v ∈ gone, v.authorize = !member v.subject) :
    gone.foldl (fun tally v => debit tally v.subject v.authorize)
      (counts member (gone ++ rest)) = counts member rest := by
  induction gone with
  | nil => rfl
  | cons v gone ih =>
    have one : debit (counts member (v :: gone ++ rest)) v.subject v.authorize =
        counts member (gone ++ rest) := by
      rw [aligned v List.mem_cons_self]
      apply debit_counts
      · rw [List.cons_append, count_cons, if_pos rfl]
      · intro b other
        rw [List.cons_append, count_cons, if_neg (Ne.symm other), Nat.add_zero]
    rw [List.foldl_cons, one]
    exact ih fun w later => aligned w (List.mem_cons_of_mem v later)

end

/-! ## Keeping the tally -/

namespace Agrees
variable {member : A → Bool} {box : Box A}

theorem empty (member : A → Bool) : Agrees member ⟨[], fun _ => none⟩ where
  counted := rfl
  aligned := by simp
  single := .nil
  voters := by simp

section
variable (agrees : Agrees member box)
include agrees

theorem discard (voter subject : A) :
    Agrees member (box.discard voter subject) ∧
      ∀ v ∈ (box.discard voter subject).votes, ¬ (v.voter = voter ∧ v.subject = subject) := by
  rw [Box.discard]
  split
  · rename_i absent
    refine ⟨agrees, fun v listed => ?_⟩
    simpa using List.find?_eq_none.mp absent v listed
  · rename_i v found
    obtain ⟨picked, before, after, split, others⟩ := List.find?_eq_some_iff_append.mp found
    rw [decide_eq_true_eq] at picked
    have erased : box.votes.eraseP (fun v => decide (v.voter = voter ∧ v.subject = subject)) =
        before ++ after := by
      rw [split, List.eraseP_append_right, List.eraseP_cons_of_pos (by simpa using picked)]
      intro w earlier
      simpa only [Bool.not_eq_true', Bool.not_eq_true] using others w earlier
    have single := agrees.single
    have listed {w : Ballot A} (kept : w ∈ before ++ after) : w ∈ box.votes := by
      rw [split]
      simp only [List.mem_append, List.mem_cons] at kept ⊢
      tauto
    rw [split, List.pairwise_append, List.pairwise_cons] at single
    obtain ⟨front, ⟨behind, back⟩, across⟩ := single
    rw [erased]
    refine ⟨⟨?_, ?_, ?_, ?_⟩, ?_⟩
    · have member' : v ∈ box.votes := by simp [split]
      rw [agrees.counted, agrees.aligned v member', split]
      apply debit_counts
      · rw [count_append, count_cons, count_append, if_pos rfl]
        omega
      · intro b other
        rw [count_append, count_cons, count_append, if_neg (Ne.symm other)]
        omega
    · exact fun w kept => agrees.aligned w (listed kept)
    · rw [List.pairwise_append]
      exact ⟨front, back, fun w earlier u later => across w earlier u (List.mem_cons_of_mem v later)⟩
    · exact fun w kept => agrees.voters w (listed kept)
    · rintro w kept ⟨same, about⟩
      rcases List.mem_append.mp kept with earlier | later
      · exact across w earlier v List.mem_cons_self
          ⟨same.trans picked.1.symm, about.trans picked.2.symm⟩
      · exact behind w later ⟨picked.1.trans same.symm, picked.2.trans about.symm⟩

theorem record {v : Ballot A} (voter : member v.voter = true)
    (direction : v.authorize = !member v.subject)
    (first : ∀ w ∈ box.votes, ¬ (w.voter = v.voter ∧ w.subject = v.subject)) :
    Agrees member (box.record v) where
  counted := by
    rw [Box.record, agrees.counted]
    exact credit_counts direction
  aligned := List.forall_mem_append.mpr ⟨agrees.aligned, List.forall_mem_singleton.mpr direction⟩
  single := by
    refine List.pairwise_append.mpr ⟨agrees.single, List.pairwise_singleton _ _, ?_⟩
    intro w old u new
    rw [List.mem_singleton.mp new]
    exact first w old
  voters := List.forall_mem_append.mpr ⟨agrees.voters, List.forall_mem_singleton.mpr voter⟩

theorem withdraw (voter : A) : Agrees member (box.withdraw voter) where
  counted := by
    rw [Box.withdraw, agrees.counted]
    dsimp only
    have parts : counts member box.votes =
        counts member ((box.votes.filter fun v => decide (v.voter = voter)) ++
          box.votes.filter fun v => decide (v.voter ≠ voter)) := by
      refine counts_congr fun b => ?_
      simpa [count] using
        ((List.filter_append_perm (fun v => decide (v.voter = voter)) box.votes).countP_eq
          fun v => decide (v.subject = b)).symm
    rw [parts]
    exact foldl_debit_counts _ fun v gone => agrees.aligned v (List.mem_filter.mp gone).1
  aligned := fun v kept => agrees.aligned v (List.mem_filter.mp kept).1
  single := agrees.single.filter _
  voters := fun v kept => agrees.voters v (List.mem_filter.mp kept).1

/-- The membership of a subject may change where its votes are thrown away. -/
theorem close {after : A → Bool} {subject : A}
    (others : ∀ b, b ≠ subject → after b = member b)
    (voters : after subject = true ∨ ∀ v ∈ box.votes, v.voter ≠ subject) :
    Agrees after (box.close subject) where
  counted := by
    funext b
    rw [Box.close, agrees.counted]
    dsimp only
    by_cases same : b = subject
    · subst same
      rw [Function.update_self, counts, if_pos]
      simp [count, List.countP_eq_zero]
    · have kept : count (box.votes.filter fun v => decide (v.subject ≠ subject)) b =
          count box.votes b := by
        rw [count, count, List.countP_filter]
        refine List.countP_congr fun v _ => ?_
        simp only [Bool.and_eq_true, decide_eq_true_eq, and_iff_left_iff_imp]
        rintro rfl
        exact same
      rw [Function.update_of_ne same, counts, counts, kept, others b same]
  aligned := by
    intro v kept
    obtain ⟨listed, other⟩ := List.mem_filter.mp kept
    rw [agrees.aligned v listed, others _ (of_decide_eq_true other)]
  single := agrees.single.filter _
  voters := by
    intro v kept
    have listed := (List.mem_filter.mp kept).1
    by_cases own : v.voter = subject
    · rw [own]
      exact voters.resolve_right fun free => free v listed own
    · rw [others _ own]
      exact agrees.voters v listed

end

end Agrees

end

end Linkeye.Lib.Tallies
