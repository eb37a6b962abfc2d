import Linkeye.Dbft.Moves

/-!
# What the backlog holds back

`processBacklog` stops at the first future message of a queue.  The packed number
of `toPriority` orders the messages by sequence, round and kind as long as the
rounds are below a hundred; from there on a message of the next sequence stands
before one of the current round.
-/

set_option autoImplicit false

namespace Linkeye.Dbft.Backlog

open Common.Types Rlp.Encode Dbft.Types Round Handlers Moves

section
variable {P : Type} [Proposal P]
variable {c : Core P} {msg : Message} {code : UInt64} {prio : Int} {view : View}

/-- The codes that `handleCheckedMsg` has a handler for. -/
def HasHandler (code : UInt64) : Prop :=
  code = msgPreprepare ∨ code = msgPrepare ∨ code = msgCommit ∨ code = msgRoundChange

structure Entry (P : Type) [Proposal P] (msg : Message) (prio : Int) (view : View) : Prop where
  code : HasHandler msg.code
  decoded : backlogView P msg = some view
  prio : prio = toPriority msg.code view
  sequence : view.sequence < 2 ^ 32
  round : view.round < 2 ^ 32

/-- A queue in the order in which an exact priority queue hands it out. -/
structure Stored (P : Type) [Proposal P] (backlog : Prque Message) : Prop where
  ordered : backlog.Pairwise fun entry later => later.2 ≤ entry.2
  entries : ∀ msg prio, (msg, prio) ∈ backlog → ∃ view, Entry P msg prio view

/-- What every sequence of `storeBacklog` makes of the queues of a core. -/
def Filed (c : Core P) : Prop :=
  ∀ (src : Address) (backlog : Prque Message), c.backlogs[src]? = some backlog → Stored P backlog

def RoundsBelow (bound : Nat) (c : Core P) : Prop :=
  ∀ (src : Address) (backlog : Prque Message) (msg : Message) (prio : Int) (view : View),
    c.backlogs[src]? = some backlog → (msg, prio) ∈ backlog → backlogView P msg = some view →
      view.round < bound

theorem pairwise_push {α : Type} (value : α) (prio : Int) {queue : Prque α}
    (ordered : queue.Pairwise fun entry later => later.2 ≤ entry.2) :
    (Prque.push value prio queue).Pairwise fun entry later => later.2 ≤ entry.2 := by
  induction ordered with
  | nil => exact List.pairwise_singleton _ _
  | @cons entry rest first ordered ih =>
    unfold Prque.push
    split
    · rename_i larger
      refine List.pairwise_cons.mpr ⟨?_, List.pairwise_cons.mpr ⟨first, ordered⟩⟩
      intro later member
      rcases List.mem_cons.mp member with rfl | member
      · exact larger.le
      · exact (first later member).trans larger.le
    · rename_i smaller
      refine List.pairwise_cons.mpr ⟨?_, ih⟩
      intro later member
      rcases (mem_push value prio rest later).mp member with rfl | member
      · exact not_lt.mp smaller
      · exact first later member

theorem Filed.storeBacklog (src : Address) (stored : Filed c) (code : HasHandler msg.code)
    (range : ∀ view, backlogView P msg = some view → view.sequence < 2 ^ 32 ∧ view.round < 2 ^ 32) :
    Filed (storeBacklog c msg src) := by
  intro other backlog found
  have before : Stored P (c.backlogs[src]?.getD []) := by
    cases present : c.backlogs[src]? with
    | none => exact ⟨List.Pairwise.nil, fun _ _ member => by cases member⟩
    | some queue => exact stored src queue present
  unfold Handlers.storeBacklog at found
  split at found
  · exact stored other backlog found
  · simp only [Std.ExtTreeMap.getElem?_insert] at found
    split at found
    · cases found
      cases decoded : backlogView P msg with
      | none => exact before
      | some view =>
        refine ⟨pairwise_push _ _ before.ordered, ?_⟩
        intro held prio member
        rcases (mem_push _ _ _ _).mp member with new | old
        · cases new
          obtain ⟨sequence, round⟩ := range view decoded
          exact ⟨view, code, decoded, rfl, sequence, round⟩
        · exact before.entries held prio old
    · exact stored other backlog found

/-! ## The packed order -/

/-- The number that `toPriority` negates, when nothing overflows. -/
def slot (code : UInt64) (view : View) : Nat :=
  view.sequence * 1000 + if code = msgRoundChange then 0 else view.round * 10 + msgPriority code

theorem msgPriority_bounds (known : HasHandler code) (consensus : code ≠ msgRoundChange) :
    1 ≤ msgPriority code ∧ msgPriority code ≤ 3 := by
  rcases known with rfl | rfl | rfl | same
  · decide
  · decide
  · decide
  · exact absurd same consensus

theorem msgPriority_le_one (known : HasHandler code) (small : msgPriority code ≤ 1)
    (consensus : code ≠ msgRoundChange) :
    code = msgPreprepare := by
  rcases known with rfl | rfl | rfl | same
  · rfl
  · exact absurd small (by decide)
  · exact absurd small (by decide)
  · exact absurd same consensus

theorem Entry.prio_eq (entry : Entry P msg prio view) :
    prio = -(slot msg.code view : Int) := by
  have sequence := entry.sequence
  have round := entry.round
  rw [entry.prio, toPriority, slot]
  by_cases roundChange : msg.code = msgRoundChange
  · rw [if_pos roundChange, if_pos roundChange, Nat.mod_eq_of_lt (by omega : view.sequence < 2 ^ 64),
      Nat.mod_eq_of_lt (by omega), Nat.add_zero]
  · obtain ⟨_, small⟩ := msgPriority_bounds entry.code roundChange
    rw [if_neg roundChange, if_neg roundChange, Nat.mod_eq_of_lt (by omega : view.sequence < 2 ^ 64),
      Nat.mod_eq_of_lt (by omega : view.round < 2 ^ 64), Nat.mod_eq_of_lt (by omega),
      Nat.add_assoc]

omit [Proposal P] in
theorem checkMessage_eq_future (known : HasHandler code)
    (future : checkMessage c code view = some .futureMessage) :
    (currentView c).sequence < view.sequence ∨
      code ≠ msgRoundChange ∧ view.sequence = (currentView c).sequence ∧
        ((currentView c).round < view.round ∨
          view.round = (currentView c).round ∧
            (c.waitingForRoundChange = true ∨
              c.state = .acceptRequest ∧ 2 ≤ msgPriority code)) := by
  unfold checkMessage at future
  split at future
  · split at future
    · rename_i later
      exact Or.inl later
    · split at future <;> cases future
  · rename_i consensus
    split at future
    · rename_i later
      rcases (View.cmp_eq_gt_iff _ _).mp later with sequence | ⟨same, round⟩
      · exact Or.inl sequence
      · exact Or.inr ⟨consensus, same, Or.inl round⟩
    · rename_i notLater
      split at future
      · cases future
      · rename_i notEarlier
        have same : view = currentView c := View.eq_of_cmp notEarlier notLater
        have here : view.sequence = (currentView c).sequence ∧
            view.round = (currentView c).round := by
          rw [same]
          exact ⟨rfl, rfl⟩
        split at future
        · rename_i waiting
          exact Or.inr ⟨consensus, here.1, Or.inr ⟨here.2, Or.inl waiting⟩⟩
        · split at future
          · rename_i accepting
            split at future
            · rename_i later
              refine Or.inr ⟨consensus, here.1, Or.inr ⟨here.2, Or.inr ⟨accepting, ?_⟩⟩⟩
              by_contra small
              rw [msgPriority_le_one known (by omega) consensus] at later
              exact absurd later (by decide)
            · cases future
          · cases future

omit [Proposal P] in
theorem checkMessage_due (due : checkMessage c code view = none) :
    view.sequence ≤ (currentView c).sequence ∧
      (code ≠ msgRoundChange → view.round ≤ (currentView c).round ∧
        c.waitingForRoundChange = false ∧ (c.state = .acceptRequest → msgPriority code ≤ 1)) := by
  by_cases roundChange : code = msgRoundChange
  · refine ⟨?_, fun consensus => absurd roundChange consensus⟩
    rw [checkMessage, if_pos roundChange] at due
    split at due
    · cases due
    · rename_i notLater
      exact not_lt.mp notLater
  · obtain ⟨same, waiting, left⟩ := checkMessage_eq_none due roundChange
    subst same
    refine ⟨le_rfl, fun _ => ⟨le_rfl, waiting, ?_⟩⟩
    intro accepting
    by_cases preprepare : code = msgPreprepare
    · rw [preprepare]
      decide
    · exact absurd accepting (left preprepare)

/-- Behind a future message nothing is due, if the rounds leave the thousands of
the sequence alone. -/
theorem not_due_behind_future {later : Message} {laterPrio : Int} {laterView : View}
    (entry : Entry P msg prio view) (laterEntry : Entry P later laterPrio laterView)
    (round : laterView.round < 100) (future : checkMessage c msg.code view = some .futureMessage)
    (behind : laterPrio ≤ prio) :
    checkMessage c later.code laterView ≠ none := by
  intro due
  rw [entry.prio_eq, laterEntry.prio_eq] at behind
  have order : slot msg.code view ≤ slot later.code laterView := by omega
  obtain ⟨sequence, rest⟩ := checkMessage_due due
  rw [slot, slot] at order
  by_cases roundChange : later.code = msgRoundChange
  · -- a ROUND CHANGE of this sequence stands before everything else of it
    rw [if_pos roundChange] at order
    rcases checkMessage_eq_future entry.code future with ahead | ⟨consensus, same, _⟩
    · omega
    · rw [if_neg consensus] at order
      obtain ⟨large, _⟩ := msgPriority_bounds entry.code consensus
      omega
  · obtain ⟨roundBound, notWaiting, kind⟩ := rest roundChange
    obtain ⟨_, small⟩ := msgPriority_bounds laterEntry.code roundChange
    rw [if_neg roundChange] at order
    rcases checkMessage_eq_future entry.code future with ahead | ⟨consensus, same, why⟩
    · split at order <;> omega
    · rw [if_neg consensus] at order
      rcases why with ahead | ⟨sameRound, waiting | ⟨accepting, late⟩⟩
      · omega
      · rw [waiting] at notWaiting
        cases notWaiting
      · have early := kind accepting
        omega

/-! ## The loop -/

theorem drainBacklog_not_due {queue : Prque Message} (stored : Stored P queue)
    (rounds : ∀ msg prio view, (msg, prio) ∈ queue → backlogView P msg = some view → view.round < 100)
    (kept : (msg, prio) ∈ (drainBacklog c queue).1) (decoded : backlogView P msg = some view) :
    checkMessage c msg.code view ≠ none := by
  induction queue with
  | nil => cases kept
  | cons first rest ih =>
    obtain ⟨head, headPrio⟩ := first
    obtain ⟨behind, ordered⟩ := List.pairwise_cons.mp stored.ordered
    have inRest : (msg, prio) ∈ (drainBacklog c rest).1 → checkMessage c msg.code view ≠ none :=
      ih ⟨ordered, fun m p member => stored.entries m p (List.mem_cons_of_mem _ member)⟩
        fun m p v member => rounds m p v (List.mem_cons_of_mem _ member)
    unfold drainBacklog at kept
    split at kept
    · exact inRest kept
    · rename_i headView headDecoded
      split at kept
      · rename_i future
        rcases (mem_push _ _ _ _).mp kept with same | later
        · cases same
          rw [headDecoded] at decoded
          cases decoded
          rw [future]
          exact Option.some_ne_none _
        · obtain ⟨held, entry⟩ := stored.entries head headPrio List.mem_cons_self
          obtain ⟨other, laterEntry⟩ :=
            stored.entries msg prio (List.mem_cons_of_mem _ later)
          obtain rfl := Option.some.inj (entry.decoded.symm.trans headDecoded)
          obtain rfl := Option.some.inj (laterEntry.decoded.symm.trans decoded)
          exact not_due_behind_future entry laterEntry
            (rounds msg prio _ (List.mem_cons_of_mem _ later) decoded) future (behind _ later)
      · exact inRest kept
      · exact inRest kept

theorem filed_of_empty (empty : c.backlogs = ∅) : Filed c := by
  intro src backlog found
  rw [empty, Std.ExtTreeMap.getElem?_empty] at found
  cases found

end

/-! ## Two stored proposals -/

def storedPreprepare (view : View) (block : NumberedBlock) : Message :=
  ⟨msgPreprepare, encode (.list [view.encodeRLP, .list [writeUint block.number,
    .bytes [block.tag]]]), sampleAddress 2, [], []⟩

def coreInRound (round : Nat) : Core NumberedBlock :=
  { newCore (sampleAddress 1) sampleSet with
    current := newRoundState ⟨round, 1⟩ sampleSet (FixedBytes.zero 32) none none }

def twoProposals (round : Nat) : Core NumberedBlock :=
  storeBacklog
    (storeBacklog (coreInRound round) (storedPreprepare ⟨round, 1⟩ ⟨1, 7⟩) (sampleAddress 2))
    (storedPreprepare ⟨0, 2⟩ ⟨2, 8⟩) (sampleAddress 2)

theorem filed_twoProposals {round : Nat} (range : round < 2 ^ 32)
    (first : backlogView NumberedBlock (storedPreprepare ⟨round, 1⟩ ⟨1, 7⟩) = some ⟨round, 1⟩) :
    Filed (twoProposals round) := by
  have second : backlogView NumberedBlock (storedPreprepare ⟨0, 2⟩ ⟨2, 8⟩) = some ⟨0, 2⟩ := by
    decide +kernel
  have started : Filed (coreInRound round) := filed_of_empty rfl
  apply Filed.storeBacklog
  · apply Filed.storeBacklog
    · exact started
    · exact Or.inl rfl
    · intro view decoded
      rw [first, Option.some.injEq] at decoded
      rw [← decoded]
      exact ⟨by norm_num, range⟩
  · exact Or.inl rfl
  · intro view decoded
    rw [second, Option.some.injEq] at decoded
    rw [← decoded]
    exact ⟨by norm_num, by norm_num⟩

def heldBack (c : Core NumberedBlock) : Prque Message :=
  ((processBacklog c).backlogs[sampleAddress 2]?).getD []

end Linkeye.Dbft.Backlog
