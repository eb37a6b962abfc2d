import Linkeye.Dbft.Invariants

/-!
# Locks and votes of one core

A vote is a COMMIT a core sends for its own current view, while the block is
locked.  If no block is marked bad and `backend.Commit` does not fail, a lock
is never given up within a sequence, so a core votes for one block at each.
-/

set_option autoImplicit false

namespace Linkeye.Dbft.Votes

open Common.Types Dbft.Types Round Handlers Moves CoreRuns Invariants

section
variable {P : Type} {be : Backend P} {c d : Core P} {ctx : Context P}

/-- No block is marked bad and every insertion succeeds. -/
structure Calm (be : Backend P) : Prop where
  noBad : ∀ hash, be.hasBadProposal hash = false
  commits : ∀ proposal seals, be.commit proposal seals = true

theorem isHashLocked_calm (calm : Calm be) (s : RoundState P) :
    s.isHashLocked be.hasBadProposal = true ↔ s.lockedHash ≠ FixedBytes.zero 32 := by
  unfold RoundState.isHashLocked emptyHash
  rw [calm.noBad]
  by_cases zero : s.lockedHash = FixedBytes.zero 32
  · simp [zero]
  · simp [zero]

/-- The lock and the proposal survive a round change together. -/
theorem carried_lock (calm : Calm be) (c : Core P) (view : View) :
    (carried be c view).lockedHash = c.current.lockedHash ∧
      (c.current.lockedHash ≠ FixedBytes.zero 32 →
        (carried be c view).preprepare = c.current.preprepare) := by
  unfold carried
  split
  · exact ⟨rfl, fun _ => rfl⟩
  · rename_i unlocked
    rw [isHashLocked_calm calm, not_not] at unlocked
    exact ⟨unlocked.symm, fun locked => absurd unlocked locked⟩

/-- A PRE-PREPARE that is answered as old is for an earlier view. -/
theorem old_view_ne {view : View} (old : checkMessage c msgPreprepare view = some .oldMessage) :
    view ≠ currentView c := by
  rintro rfl
  have notLess : (currentView c).cmp (currentView c) ≠ .lt := by
    rw [Ne, View.cmp_eq_lt_iff]
    omega
  unfold checkMessage at old
  rw [if_neg (by decide), if_neg notLess] at old
  split at old
  · cases old
  · split at old
    · cases old
    · split at old
      · split at old <;> cases old
      · cases old

variable [Proposal P]

/-- The COMMIT is for the view it was sent in and for the locked block. -/
def IsVote (sent : Sent) (sub : Subject) : Prop :=
  sent.msg.code = msgCommit ∧ sent.msg.decodeSubject = some sub ∧ sub.view = sent.view ∧
    sent.lockedHash = sub.digest

def VotedFor (c : Core P) (sequence : Nat) (digest : Hash) : Prop :=
  ∃ sent sub, .broadcast sent ∈ c.outputs ∧ IsVote sent sub ∧
    sub.view.sequence = sequence ∧ sub.digest = digest

structure VoteInv (c : Core P) : Prop where
  lock : c.current.lockedHash ≠ FixedBytes.zero 32 →
    ∃ pp, c.current.preprepare = some pp ∧ Proposal.hash pp.proposal = c.current.lockedHash
  held : ∀ sequence digest, VotedFor c sequence digest →
    digest ≠ FixedBytes.zero 32 ∧ sequence ≤ c.current.sequence ∧
      (sequence = c.current.sequence → c.current.lockedHash = digest)
  unique : ∀ sequence first second, VotedFor c sequence first → VotedFor c sequence second →
    first = second

/-- A new vote is for the lock of the current sequence. -/
theorem votedFor_of_move (move : Move ctx c d) {sequence : Nat} {digest : Hash}
    (voted : VotedFor d sequence digest) :
    VotedFor c sequence digest ∨
      d.current = c.current ∧ sequence = c.current.sequence ∧ digest = c.current.lockedHash ∧
        ∃ proposal : P, Proposal.hash proposal = digest := by
  obtain ⟨sent, sub, member, vote, rfl, rfl⟩ := voted
  obtain ⟨code, decoded, sameView, locked⟩ := vote
  rcases sent_of_move move member with old | ⟨kind, _, sentView, sentLock, _, unchanged⟩
  · exact Or.inl ⟨sent, sub, old, ⟨code, decoded, sameView, locked⟩, rfl, rfl⟩
  · refine Or.inr ⟨unchanged, ?_, locked.symm.trans sentLock, ?_⟩
    · rw [sameView, sentView]
      rfl
    · have different : ∀ other : UInt64, sent.msg.code = other → msgCommit ≠ other → False := by
        intro other same differ
        exact differ (code.symm.trans same)
      cases kind with
      | preprepare _ other | prepare _ other => exact (different _ other (by decide)).elim
      | roundChange other => exact (different _ other (by decide)).elim
      | commit own _ decodedOwn subject _ =>
        rw [decoded] at decodedOwn
        cases decodedOwn
        obtain ⟨pp, _, same⟩ := Option.map_eq_some_iff.mp subject
        exact ⟨pp.proposal, by rw [← same]⟩
      | oldCommit _ _ pp _ decodedOld _ _ _ _ old _ =>
        rw [decoded] at decodedOld
        cases decodedOld
        exact absurd (sameView.trans sentView) (old_view_ne old)

/-- A move keeps the votes in order if it keeps the lock, or leaves the
sequence. -/
theorem VoteInv.of_kept_lock (inv : VoteInv c) (move : Move ctx c d)
    (nonzero : ∀ proposal : P, Proposal.hash proposal ≠ FixedBytes.zero 32)
    (lock : d.current.lockedHash ≠ FixedBytes.zero 32 → ∃ pp, d.current.preprepare = some pp ∧ Proposal.hash pp.proposal = d.current.lockedHash)
    (kept : c.current.sequence < d.current.sequence ∨ d.current.sequence = c.current.sequence ∧ (c.current.lockedHash ≠ FixedBytes.zero 32 → d.current.lockedHash = c.current.lockedHash)) :
    VoteInv d where
  lock := lock
  held := by
    intro sequence digest voted
    rcases votedFor_of_move move voted with before | ⟨unchanged, rfl, rfl, proposal, hashed⟩
    · obtain ⟨proper, bound, locked⟩ := inv.held sequence digest before
      rcases kept with later | ⟨same, keeps⟩
      · exact ⟨proper, by omega, fun now => by omega⟩
      · refine ⟨proper, by omega, fun now => ?_⟩
        have lockedBefore := locked (now.trans same)
        rw [keeps (lockedBefore ▸ proper)]
        exact lockedBefore
    · rw [unchanged]
      exact ⟨hashed ▸ nonzero proposal, le_refl _, fun _ => rfl⟩
  unique := by
    have newest : ∀ sequence before now, VotedFor c sequence before →
        sequence = c.current.sequence → now = c.current.lockedHash → before = now := by
      intro sequence before now voted current locked
      rw [locked, (inv.held sequence before voted).2.2 current]
    intro sequence first second votedFirst votedSecond
    rcases votedFor_of_move move votedFirst with oldFirst | ⟨_, current, lockedFirst, _⟩
    · rcases votedFor_of_move move votedSecond with oldSecond | ⟨_, current, lockedSecond, _⟩
      · exact inv.unique sequence first second oldFirst oldSecond
      · exact newest sequence first second oldFirst current lockedSecond
    · rcases votedFor_of_move move votedSecond with oldSecond | ⟨_, _, lockedSecond, _⟩
      · exact (newest sequence second first oldSecond current lockedFirst).symm
      · rw [lockedFirst, lockedSecond]

theorem VoteInv.move (inv : VoteInv c) (move : Move ctx c d) (calm : Calm ctx.be)
    (nonzero : ∀ proposal : P, Proposal.hash proposal ≠ FixedBytes.zero 32) :
    VoteInv d := by
  have withLock := inv.of_kept_lock move nonzero
  have keeping : d.current.preprepare = c.current.preprepare →
      d.current.lockedHash = c.current.lockedHash →
      d.current.sequence = c.current.sequence → VoteInv d := by
    intro samePreprepare sameLock sameSequence
    refine withLock ?_ (Or.inr ⟨sameSequence, fun _ => sameLock⟩)
    rw [samePreprepare, sameLock]
    exact inv.lock
  have carrying : ∀ view, d.current = carried ctx.be c view →
      view.sequence = c.current.sequence → VoteInv d := by
    intro view sameCurrent sameSequence
    obtain ⟨sameLock, samePreprepare⟩ := carried_lock calm c view
    refine withLock ?_ (Or.inr ⟨?_, fun _ => ?_⟩)
    · rw [sameCurrent, sameLock]
      intro locked
      rw [samePreprepare locked]
      exact inv.lock locked
    · rw [sameCurrent, (carried_view _ _ _).2, sameSequence]
    · rw [sameCurrent, sameLock]
  cases move with
  | quiet quiet =>
    obtain ⟨request, current⟩ := quiet.current
    refine keeping ?_ ?_ ?_
    all_goals rw [current]
  | newSequence last advance =>
    refine withLock ?_ (Or.inl ?_)
    · intro locked
      exact absurd rfl locked
    · exact Nat.lt_succ_of_le advance
  | newRound | catchUp => exact carrying _ rfl rfl
  | acceptPreprepare pp next accepting sameView verified lock leaves =>
    refine withLock ?_ (Or.inr ⟨rfl, fun _ => rfl⟩)
    intro locked
    exact ⟨pp, rfl, lock ((isHashLocked_calm calm _).mpr locked)⟩
  | lock next leaves =>
    obtain ⟨samePreprepare, _, _⟩ := lockHash_fields c.current
    cases stored : c.current.preprepare with
    | none =>
      have unchanged : c.current.lockHash = c.current := by
        rw [RoundState.lockHash, stored]
      refine keeping ?_ ?_ ?_
      all_goals rw [unchanged]
    | some pp =>
      have locks : c.current.lockHash.lockedHash = Proposal.hash pp.proposal := by
        rw [RoundState.lockHash, stored]
      have sameSequence : c.current.lockHash.sequence = c.current.sequence := by
        rw [RoundState.lockHash, stored]
      refine withLock ?_ (Or.inr ⟨sameSequence, ?_⟩)
      · intro _
        exact ⟨pp, samePreprepare.trans stored, locks.symm⟩
      · intro locked
        obtain ⟨held, heldStored, heldHash⟩ := inv.lock locked
        rw [stored] at heldStored
        cases heldStored
        exact locks.trans heldHash
  | unlock proposal seals failed =>
    rw [calm.commits] at failed
    cases failed
  | send | recordPrepare | recordCommit | recordRoundChange | commit =>
    exact keeping rfl rfl rfl

theorem VoteInv.start {address : Address} (started : start be address = some c) : VoteInv c := by
  have unvoted : ∀ sequence digest, ¬ VotedFor c sequence digest := by
    rintro sequence digest ⟨sent, sub, member, _⟩
    cases start_silent started _ member
  obtain ⟨last, quiet⟩ := start_eq_some started
  obtain ⟨request, current⟩ := quiet.current
  refine ⟨?_, ?_, ?_⟩
  · rw [current]
    intro locked
    exact absurd rfl locked
  · intro sequence digest voted
    exact absurd voted (unvoted sequence digest)
  · intro sequence first second voted
    exact absurd voted (unvoted sequence first)

end

end Linkeye.Dbft.Votes
