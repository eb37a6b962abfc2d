import Linkeye.Dbft.Moves
import Linkeye.Lib.Runs

/-!
# Runs of one core

A core is started once and then handles events, with a backend that answers
anew at every event, within what is allowed.  A backlog event arrives only if
the core has posted it.
-/

set_option autoImplicit false

namespace Linkeye.Dbft.CoreRuns

open Common.Types Rlp.Encode Lib.Runs Dbft.Types Round Handlers Moves

section
variable {P : Type} [Proposal P]
variable {be : Backend P} {address : Address} {c d : Core P} {ctx : Context P}

/-- What the core does not post itself may arrive at any time. -/
def Posted (c : Core P) : Event P → Prop
  | .backlog src msg => .backlogEvent src msg ∈ c.outputs
  | _ => True

def coreSystem (allowed : Backend P → Prop) (address : Address) :
    System (Core P) (Backend P × Event P) where
  init := fun c => ∃ be, allowed be ∧ start be address = some c
  enabled := fun c step => allowed step.1 ∧ Posted c step.2
  next := fun c step => handleEvent step.1 c step.2

abbrev freeSystem (P : Type) [Proposal P] (address : Address) :
    System (Core P) (Backend P × Event P) :=
  coreSystem (fun _ => True) address

/-! ## What a move puts out -/

theorem sent_of_move (move : Move ctx c d) {sent : Sent} (member : .broadcast sent ∈ d.outputs) :
    .broadcast sent ∈ c.outputs ∨
      Sends ctx c sent.msg ∧ sent.msg.address = c.address ∧ sent.view = currentView c ∧
        sent.lockedHash = c.current.lockedHash ∧ sent.sealedHash = sealedHash c sent.msg.code ∧
        d.current = c.current := by
  cases move with
  | quiet quiet =>
    obtain ⟨extra, outputs, silent⟩ := quiet.outputs
    rw [outputs, List.mem_append] at member
    rcases member with before | new
    · exact Or.inl before
    · cases silent _ new
  | send m sender kind =>
    rcases List.mem_append.mp member with before | new
    · exact Or.inl before
    · cases List.mem_singleton.mp new
      exact Or.inr ⟨kind, sender, rfl, rfl, rfl, rfl⟩
  | commit =>
    rcases List.mem_append.mp member with before | new
    · exact Or.inl before
    · cases List.mem_singleton.mp new
  | newSequence | newRound | catchUp | acceptPreprepare | recordPrepare | recordCommit
  | recordRoundChange | lock | unlock => exact Or.inl member

theorem committed_of_move (move : Move ctx c d) {committed : Committed P}
    (member : .commit committed ∈ d.outputs) :
    .commit committed ∈ c.outputs ∨
      c.current.proposal = some committed.proposal ∧ committed.view = currentView c ∧
        committed.valSet = c.valSet ∧ c.valSet.exceedsTwoF c.current.commits.size = true ∧
        committed.seals = (ctx.be.rangeOrder c.current.commits.values).map copySeal := by
  cases move with
  | quiet quiet =>
    obtain ⟨extra, outputs, silent⟩ := quiet.outputs
    rw [outputs, List.mem_append] at member
    rcases member with before | new
    · exact Or.inl before
    · cases silent _ new
  | send =>
    rcases List.mem_append.mp member with before | new
    · exact Or.inl before
    · cases List.mem_singleton.mp new
  | commit proposal held quorum =>
    rcases List.mem_append.mp member with before | new
    · exact Or.inl before
    · cases List.mem_singleton.mp new
      exact Or.inr ⟨held, rfl, rfl, quorum, rfl⟩
  | newSequence | newRound | catchUp | acceptPreprepare | recordPrepare | recordCommit
  | recordRoundChange | lock | unlock => exact Or.inl member

theorem outputs_of_move (move : Move ctx c d) {output : Output P} (member : output ∈ c.outputs) :
    output ∈ d.outputs := by
  cases move with
  | quiet quiet =>
    obtain ⟨extra, outputs, _⟩ := quiet.outputs
    rw [outputs]
    exact List.mem_append_left _ member
  | send | commit => exact List.mem_append_left _ member
  | newSequence | newRound | catchUp | acceptPreprepare | recordPrepare | recordCommit
  | recordRoundChange | lock | unlock => exact member

def freshCore (be : Backend P) (address : Address) (last : P) : Core P :=
  { newCore address (be.validators last) with
    valSet := (be.validators last).calcProposer be.lastProposal.2 0
    current := newRoundState ⟨0, Proposal.number last + 1⟩ (be.validators last)
      (FixedBytes.zero 32) none none }

theorem start_eq_some (started : start be address = some c) :
    ∃ last, Quiet (fun _ _ => False) (freshCore be address last) c := by
  obtain ⟨last, _, rfl⟩ := Option.map_eq_some_iff.mp started
  refine ⟨last, ?_⟩
  simp only [enterNewRound, Bool.false_eq_true, false_and, if_false]
  exact quiet_setState (freshCore be address last) .acceptRequest

theorem start_silent (started : start be address = some c) :
    ∀ output ∈ c.outputs, isQuiet output = true := by
  obtain ⟨last, quiet⟩ := start_eq_some started
  obtain ⟨extra, outputs, silent⟩ := quiet.outputs
  rw [outputs]
  exact silent

/-! ## Sealed COMMIT messages -/

/-- A COMMIT with a seal is about the sealed block, and that block is locked. -/
def SealsLock (sent : Sent) : Prop :=
  ∀ hash, sent.sealedHash = some hash →
    (∃ sub, sent.msg.decodeSubject = some sub ∧ sub.digest = hash) ∧ sent.lockedHash = hash

/-- If the event makes the core answer an old PRE-PREPARE, its own proposal, if
it has one, is that old block and is locked. -/
def OldReplyKeepsSeal (c : Core P) (step : Backend P × Event P) : Prop :=
  ∀ pp own, oldReply step.1 c step.2 = some pp → c.current.proposal = some own →
    Proposal.hash own = Proposal.hash pp.proposal ∧ c.current.lockedHash = Proposal.hash own

theorem sealedHash_commit {hash : Hash} (sealed : sealedHash c msgCommit = some hash) :
    ∃ proposal, c.current.proposal = some proposal ∧ Proposal.hash proposal = hash := by
  rw [sealedHash, if_pos rfl] at sealed
  exact Option.map_eq_some_iff.mp sealed

theorem sends_sealsLock {step : Backend P × Event P} {sent : Sent}
    (keeps : OldReplyKeepsSeal c step) (kind : Sends (eventContext step.1 c step.2) d sent.msg)
    (locked : sent.lockedHash = d.current.lockedHash)
    (sealed : sent.sealedHash = sealedHash d sent.msg.code) : SealsLock sent := by
  have unsealed : sent.msg.code ≠ msgCommit → SealsLock sent := by
    intro other hash contra
    rw [sealed, sealedHash, if_neg other] at contra
    cases contra
  cases kind with
  | preprepare _ code | prepare _ code | roundChange code =>
    exact unsealed (by rw [code]; decide)
  | commit sub code decoded subject lock =>
    intro hash hashed
    rw [sealed, code] at hashed
    obtain ⟨proposal, held, rfl⟩ := sealedHash_commit hashed
    obtain ⟨pp, stored, rfl⟩ := Option.map_eq_some_iff.mp held
    rw [RoundState.subject, stored, Option.map_some, Option.some.injEq] at subject
    rw [locked, lock, ← subject]
    exact ⟨⟨sub, decoded, by rw [← subject]⟩, rfl⟩
  | oldCommit msg src pp code decoded unmoved heard isPreprepare decodedPreprepare old known =>
    intro hash hashed
    rw [sealed, code] at hashed
    obtain ⟨own, held, rfl⟩ := sealedHash_commit hashed
    have origin : d = c := unmoved
    subst origin
    obtain ⟨same, lock⟩ :=
      keeps pp own (oldReply_eq_some heard isPreprepare decodedPreprepare old known) held
    exact ⟨⟨_, decoded, same.symm⟩, locked.trans lock⟩

/-- In a run where no old PRE-PREPARE is answered over another proposal, every
seal is given for the block of its COMMIT while that block is locked. -/
theorem sealed_commit_is_locked (address : Address) {c : Core P}
    (reached : Reachable (freeSystem P address) OldReplyKeepsSeal c) {sent : Sent}
    (member : .broadcast sent ∈ c.outputs) : SealsLock sent := by
  have inv : ∀ sent, .broadcast sent ∈ c.outputs → SealsLock sent := by
    refine reached.invariant (fun c => ∀ sent, .broadcast sent ∈ c.outputs → SealsLock sent) ?_ ?_
    · rintro started ⟨be, _, run⟩ sent member
      cases start_silent run _ member
    · intro before step ih _ keeps
      refine kept_by_moves (fun d : Core P => ∀ sent, .broadcast sent ∈ d.outputs → SealsLock sent)
        ?_ (handleEvent_moves step.1 before step.2) ih
      intro d e move earlier sent member
      rcases sent_of_move move member with old | ⟨kind, _, _, locked, sealed, _⟩
      · exact earlier sent old
      · exact sends_sealsLock keeps kind locked sealed
  exact inv sent member

end

/-! ## Concrete runs -/

def isBacklog {P : Type} : Event P → Bool
  | .backlog _ _ => true
  | _ => false

/-- The step is no backlog event and answers no old PRE-PREPARE. -/
def answersNothing {P : Type} [Proposal P] (c : Core P) (step : Backend P × Event P) : Bool :=
  !isBacklog step.2 && (oldReply step.1 c step.2).isNone

theorem posted_of_external {P : Type} {c : Core P} {event : Event P}
    (external : (!isBacklog event) = true) : Posted c event := by
  cases event with
  | backlog src msg => cases external
  | _ => trivial

theorem external_sound {P : Type} [Proposal P] {address : Address} {c : Core P}
    {step : Backend P × Event P} (external : (!isBacklog step.2) = true) :
    (freeSystem P address).enabled c step ∧ True :=
  ⟨⟨trivial, posted_of_external external⟩, trivial⟩

theorem answersNothing_sound {P : Type} [Proposal P] {address : Address} {c : Core P}
    {step : Backend P × Event P}
    (nothing : answersNothing c step = true) :
    (freeSystem P address).enabled c step ∧ OldReplyKeepsSeal c step := by
  rw [answersNothing, Bool.and_eq_true] at nothing
  obtain ⟨external, silent⟩ := nothing
  refine ⟨⟨trivial, posted_of_external external⟩, ?_⟩
  intro pp own answered
  rw [answered] at silent
  cases silent

def secondHeight : Backend NumberedBlock :=
  chainBackend (sampleAddress 3) (⟨1, 7⟩, sampleAddress 1) [(⟨0, 0⟩, zeroAddress)]

def prepareSecond : List (Backend NumberedBlock × Event NumberedBlock) :=
  let subject := Subject.encodeRLP ⟨⟨0, 2⟩, Proposal.hash (⟨2, 8⟩ : NumberedBlock)⟩
  [(secondHeight, .message (samplePayload 2 2 msgPreprepare
      (.list [View.encodeRLP ⟨0, 2⟩, .list [writeUint 2, .bytes [8]]]) [])),
    (secondHeight, .message (samplePayload 1 1 msgPrepare subject [])),
    (secondHeight, .message (samplePayload 2 2 msgPrepare subject [])),
    (secondHeight, .message (samplePayload 4 4 msgPrepare subject []))]

def repeatFirst : List (Backend NumberedBlock × Event NumberedBlock) :=
  prepareSecond.take 1 ++ [(secondHeight, .message (samplePayload 1 1 msgPreprepare
    (.list [View.encodeRLP ⟨0, 1⟩, .list [writeUint 1, .bytes [7]]]) []))]

def sealsHash (hash : Hash) (c : Core NumberedBlock) : Bool :=
  c.outputs.any fun output =>
    match output with
    | .broadcast sent => decide (sent.sealedHash = some hash)
    | _ => false

theorem exists_sealed {hash : Hash} {c : Core NumberedBlock} (sealed : sealsHash hash c = true) :
    ∃ sent, .broadcast sent ∈ c.outputs ∧ sent.sealedHash = some hash := by
  obtain ⟨output, member, found⟩ := List.any_eq_true.mp sealed
  split at found
  · rename_i sent
    exact ⟨sent, member, of_decide_eq_true found⟩
  · cases found

theorem start_secondHeight_isSome : (start secondHeight (sampleAddress 3)).isSome = true := by
  decide +kernel

theorem sealed_commit_is_locked_prepareSecond : ∃ (c : Core NumberedBlock) (sent : Sent),
    Reachable (freeSystem NumberedBlock (sampleAddress 3)) OldReplyKeepsSeal c ∧
      .broadcast sent ∈ c.outputs ∧
      sent.sealedHash = some (Proposal.hash (⟨2, 8⟩ : NumberedBlock)) ∧ SealsLock sent := by
  obtain ⟨c, reached, seals⟩ : ∃ c, Reachable (freeSystem NumberedBlock (sampleAddress 3))
      OldReplyKeepsSeal c ∧ sealsHash (Proposal.hash (⟨2, 8⟩ : NumberedBlock)) c = true :=
    exists_run (start secondHeight (sampleAddress 3)) prepareSecond
      (fun _ run => ⟨secondHeight, trivial, run⟩) (fun _ _ _ => answersNothing_sound)
      (by decide +kernel)
  obtain ⟨sent, member, hashed⟩ := exists_sealed seals
  exact ⟨c, sent, reached, member, hashed, sealed_commit_is_locked _ reached member⟩

/-- The answer to the old PRE-PREPARE of block 1 carries a seal for block 2. -/
theorem old_reply_seals_another_block : ∃ (c : Core NumberedBlock) (sent : Sent),
    Reachable (freeSystem NumberedBlock (sampleAddress 3)) (fun _ _ => True) c ∧
      .broadcast sent ∈ c.outputs ∧ ¬ SealsLock sent := by
  obtain ⟨c, reached, found⟩ : ∃ c, Reachable (freeSystem NumberedBlock (sampleAddress 3))
      (fun _ _ => True) c ∧ (sealsHash (Proposal.hash (⟨2, 8⟩ : NumberedBlock)) c &&
        c.outputs.all fun output =>
          match output with
          | .broadcast sent => decide (sent.lockedHash ≠ Proposal.hash (⟨2, 8⟩ : NumberedBlock))
          | _ => true) = true :=
    exists_run (start secondHeight (sampleAddress 3)) repeatFirst
      (fun _ run => ⟨secondHeight, trivial, run⟩) (fun _ _ _ => external_sound)
      (by decide +kernel)
  rw [Bool.and_eq_true] at found
  obtain ⟨sent, member, hashed⟩ := exists_sealed found.1
  have unlocked := of_decide_eq_true (List.all_eq_true.mp found.2 _ member)
  exact ⟨c, sent, reached, member, fun seals => unlocked (seals _ hashed).2⟩

end Linkeye.Dbft.CoreRuns
