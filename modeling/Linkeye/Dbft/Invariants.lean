import Linkeye.Dbft.CoreRuns

/-!
# Invariants of one core

The COMMIT messages a core has counted are for its current subject, and they
and its proposal keep whatever was checked when they came in.  `Good` and `Fit`
stand for these checks; the lemmas that follow say what a move needs to keep
them.
-/

set_option autoImplicit false

namespace Linkeye.Dbft.Invariants

open Common.Types Dbft.Types Round Validator Handlers Moves CoreRuns

section
variable {P : Type} {Good : Message → Prop} {Fit : P → Prop} {c d : Core P} {ctx : Context P}

theorem carried_view (be : Backend P) (c : Core P) (view : View) :
    (carried be c view).round = view.round ∧ (carried be c view).sequence = view.sequence := by
  unfold carried
  split <;> exact ⟨rfl, rfl⟩

theorem carried_commits (be : Backend P) (c : Core P) (view : View) :
    (carried be c view).commits = newMessageSet c.valSet ∧
      ∀ pp, (carried be c view).preprepare = some pp → c.current.preprepare = some pp := by
  unfold carried
  split
  · exact ⟨rfl, fun _ kept => kept⟩
  · exact ⟨rfl, fun _ kept => by cases kept⟩

variable [Proposal P]

structure CoreInv (Good : Message → Prop) (Fit : P → Prop) (c : Core P) : Prop where
  accepting : c.state = .acceptRequest → ∀ addr, c.current.commits.get addr = none
  commits : ∀ addr m, c.current.commits.get addr = some m →
    m.code = msgCommit ∧
      ∃ sub, m.decodeSubject = some sub ∧ c.current.subject = some sub ∧ Good m
  members : c.current.commits.valSet.validators = c.valSet.validators
  proposal : ∀ pp, c.current.preprepare = some pp → Fit pp.proposal

theorem lockHash_fields (s : RoundState P) :
    s.lockHash.preprepare = s.preprepare ∧ s.lockHash.commits = s.commits ∧
      s.lockHash.view = s.view := by
  unfold RoundState.lockHash
  split <;> exact ⟨rfl, rfl, rfl⟩

theorem CoreInv.of_fresh (valSet : ValidatorSet) (fresh : c.current.commits = newMessageSet valSet)
    (same : valSet.validators = c.valSet.validators)
    (proposal : ∀ pp, c.current.preprepare = some pp → Fit pp.proposal) : CoreInv Good Fit c where
  accepting := by
    intro _ addr
    rw [fresh, MessageSet.get_newMessageSet]
  commits := by
    intro addr m stored
    rw [fresh, MessageSet.get_newMessageSet] at stored
    cases stored
  members := by
    rw [fresh]
    exact same
  proposal := proposal

theorem CoreInv.move (inv : CoreInv Good Fit c) (move : Move ctx c d)
    (good : ∀ m src sub, ctx.heard m src → m.code = msgCommit → m.decodeSubject = some sub → ctx.origin.current.subject = some sub → Good m)
    (fit : ∀ p, ctx.be.verify p = .ok → Fit p) : CoreInv Good Fit d := by
  cases move with
  | quiet quiet =>
    obtain ⟨request, current⟩ := quiet.current
    refine ⟨?_, ?_, ?_, ?_⟩
    · rw [quiet.state, current]
      exact inv.accepting
    · rw [current]
      exact inv.commits
    · rw [current, quiet.valSet]
      exact inv.members
    · rw [current]
      exact inv.proposal
  | send | recordPrepare | recordRoundChange | commit | unlock =>
    exact { inv with }
  | newSequence =>
    refine CoreInv.of_fresh _ rfl (ValidatorSet.calcProposer_validators _ _ _).symm ?_
    intro pp held
    cases held
  | newRound round =>
    obtain ⟨fresh, kept⟩ := carried_commits ctx.be c ⟨round, c.current.sequence⟩
    exact CoreInv.of_fresh _ fresh (ValidatorSet.calcProposer_validators _ _ _).symm
      fun pp held => inv.proposal pp (kept pp held)
  | catchUp round =>
    obtain ⟨fresh, kept⟩ := carried_commits ctx.be c ⟨round, c.current.sequence⟩
    exact CoreInv.of_fresh _ fresh rfl fun pp held => inv.proposal pp (kept pp held)
  | acceptPreprepare pp next accepting sameView verified lock leaves =>
    -- the subject changes here, but nothing has been counted for it yet
    have empty := inv.accepting accepting
    refine ⟨fun back => absurd back leaves, ?_, inv.members, ?_⟩
    · intro addr m stored
      rw [show ({ acceptPreprepare c pp with state := next } : Core P).current.commits =
        c.current.commits from rfl, empty addr] at stored
      cases stored
    · intro held same
      cases same
      exact fit pp.proposal verified
  | recordCommit m src sub commits unmoved heard code decoded subject left added =>
    obtain ⟨sameSet, stored⟩ := MessageSet.add_eq_ok added
    refine ⟨fun back => absurd back left, ?_, ?_, inv.proposal⟩
    · intro addr found member
      rcases stored addr found member with ⟨rfl, _⟩ | before
      · exact ⟨code, sub, decoded, subject,
          good found src sub heard code decoded (unmoved ▸ subject)⟩
      · exact inv.commits addr found before
    · rw [show ({ c with current := { c.current with commits := commits } } : Core P).current.commits =
        commits from rfl, sameSet]
      exact inv.members
  | lock next leaves =>
    obtain ⟨samePreprepare, sameCommits, sameView⟩ := lockHash_fields c.current
    have sameSubject : c.current.lockHash.subject = c.current.subject := by
      rw [RoundState.subject, RoundState.subject, samePreprepare, sameView]
    refine ⟨fun back => absurd back leaves, ?_, ?_, ?_⟩
    · dsimp only
      rw [sameCommits, sameSubject]
      exact inv.commits
    · dsimp only
      rw [sameCommits]
      exact inv.members
    · dsimp only
      rw [samePreprepare]
      exact inv.proposal

theorem CoreInv.start {be : Backend P} {address : Address} (started : start be address = some c) :
    CoreInv Good Fit c := by
  obtain ⟨last, quiet⟩ := start_eq_some started
  obtain ⟨request, current⟩ := quiet.current
  refine CoreInv.of_fresh (be.validators last) ?_ ?_ ?_
  · rw [current]
    rfl
  · rw [quiet.valSet]
    exact (ValidatorSet.calcProposer_validators _ _ _).symm
  · intro pp held
    rw [current] at held
    cases held

theorem CoreInv.mono {Better : Message → Prop} (inv : CoreInv Good Fit c)
    (weaker : ∀ m, Good m → Better m) : CoreInv Better Fit c where
  __ := inv
  commits := by
    intro addr m stored
    obtain ⟨code, sub, decoded, subject, good⟩ := inv.commits addr m stored
    exact ⟨code, sub, decoded, subject, weaker m good⟩

theorem address_of_move (move : Move ctx c d) :
    d.address = c.address := by
  cases move with
  | quiet quiet => exact quiet.address
  | _ => rfl

theorem queued_of_move (move : Move ctx c d) {src : Address} {msg : Message}
    (queued : Queued d src msg) : Queued c src msg ∨ ctx.heard msg src := by
  have emitted : ∀ output : Output P, isQuiet output = false →
      Queued (c.emit output) src msg → Queued c src msg := by
    intro output loud after
    rcases after with stored | posted
    · exact Or.inl stored
    · rcases List.mem_append.mp posted with earlier | new
      · exact Or.inr earlier
      · rw [← List.mem_singleton.mp new] at loud
        cases loud
  cases move with
  | quiet quiet => exact quiet.queued src msg queued
  | send | commit => exact Or.inl (emitted _ rfl queued)
  | _ => exact Or.inl queued

/-- The validators of a core change only with the sequence. -/
theorem valSet_of_move (move : Move ctx c d) :
    d.valSet.validators = c.valSet.validators ∨
      ∃ last, d.valSet.validators = (ctx.be.validators last).validators := by
  cases move with
  | quiet quiet => exact Or.inl (by rw [quiet.valSet])
  | newSequence last => exact Or.inr ⟨last, ValidatorSet.calcProposer_validators _ _ _⟩
  | newRound => exact Or.inl (ValidatorSet.calcProposer_validators _ _ _)
  | _ => exact Or.inl rfl

theorem valSet_of_start {be : Backend P} {address : Address} (started : start be address = some c) :
    ∃ last, c.valSet.validators = (be.validators last).validators := by
  obtain ⟨last, quiet⟩ := start_eq_some started
  refine ⟨last, ?_⟩
  rw [quiet.valSet]
  exact ValidatorSet.calcProposer_validators _ _ _

end

end Linkeye.Dbft.Invariants
