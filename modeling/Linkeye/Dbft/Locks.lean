import Linkeye.Dbft.RoundChanges

/-!
# The lock and its block

The locked hash and the stored PRE-PREPARE are two fields.  While a hash is locked and
not known to be bad, the stored proposal has that hash.  What a locked core proposes
comes from two places: a new round, which hands on the stored proposal, and a request,
which does not look at the lock.
-/

set_option autoImplicit false

namespace Linkeye.Dbft.Locks

open Common.Types Rlp.Encode Lib.Runs Dbft.Types Round Handlers Moves
open CoreRuns Invariants RoundChanges

section Locks
variable {P : Type} [Proposal P]
variable {bad : Hash → Bool} {s : RoundState P} {be : Backend P} {c d : Core P} {code : UInt64}
  {sent : Sent} {event : Event P} {r : Nat}

/-! ## The stored proposal -/

/-- A locked hash is the hash of the stored proposal. -/
def LockKept (bad : Hash → Bool) (s : RoundState P) : Prop :=
  s.isHashLocked bad = true → ∃ pp, s.preprepare = some pp ∧ Proposal.hash pp.proposal = s.lockedHash

omit [Proposal P] in
theorem isHashLocked_iff (bad : Hash → Bool) (s : RoundState P) :
    s.isHashLocked bad = true ↔ emptyHash s.lockedHash = false ∧ bad s.lockedHash = false := by
  unfold RoundState.isHashLocked
  split
  · rename_i empty
    simp [empty]
  · rename_i nonempty
    simp [Bool.eq_false_iff.mpr nonempty]

theorem LockKept.mono {worse : Hash → Bool} (kept : LockKept bad s)
    (grows : ∀ h, bad h = true → worse h = true) : LockKept worse s := by
  intro locked
  apply kept
  rw [isHashLocked_iff] at locked ⊢
  refine ⟨locked.1, ?_⟩
  by_contra known
  rw [grows _ (by simpa using known)] at locked
  cases locked.2

theorem LockKept.of_unlocked (unlocked : s.lockedHash = FixedBytes.zero 32) : LockKept bad s := by
  intro locked
  rw [isHashLocked_iff, unlocked] at locked
  exact absurd locked.1 (by decide)

theorem LockKept.carried (kept : LockKept be.hasBadProposal c.current) (view : View) :
    LockKept be.hasBadProposal (carried be c view) := by
  unfold Moves.carried
  split
  · rename_i locked
    intro _
    exact kept locked
  · exact .of_unlocked rfl

theorem LockKept.move {ctx : Context P} (kept : LockKept ctx.be.hasBadProposal c.current)
    (move : Move ctx c d) :
    LockKept ctx.be.hasBadProposal d.current := by
  cases move with
  | quiet quiet =>
    obtain ⟨request, current⟩ := quiet.current
    rw [current]
    exact kept
  | send | recordPrepare | recordCommit | recordRoundChange | commit => exact kept
  | newSequence | unlock => exact .of_unlocked rfl
  | newRound | catchUp => exact kept.carried _
  | acceptPreprepare pp next accepting sameView verified lock leaves =>
    intro locked
    exact ⟨pp, rfl, lock locked⟩
  | lock next leaves =>
    unfold RoundState.lockHash
    split
    · rename_i pp stored
      intro _
      exact ⟨pp, stored, rfl⟩
    · exact kept

theorem LockKept.handleEvent (kept : LockKept be.hasBadProposal c.current) (event : Event P) :
    LockKept be.hasBadProposal (handleEvent be c event).current :=
  kept_by_moves (fun d : Core P => LockKept be.hasBadProposal d.current)
    (fun _ _ move before => before.move move) (handleEvent_moves be c event) kept

/-! ## What is proposed -/

theorem sendPreprepare_sent {request : Option P}
    (member : .broadcast sent ∈ (sendPreprepare be c request).outputs) :
    .broadcast sent ∈ c.outputs ∨
      ∃ p, request = some p ∧ isProposer c = true ∧ sent.view = currentView c ∧
        sent.lockedHash = c.current.lockedHash ∧
        (Preprepare.encodeRLP ⟨currentView c, p⟩).bind encodeToBytes = some sent.msg.msg := by
  rcases sendPreprepare_cases be c request with
    same | same | ⟨p, final, rfl, proposer, _, _, encoding, same⟩ <;> rw [same] at member
  · exact Or.inl member
  · exact Or.inl member
  · rcases List.mem_append.mp member with before | new
    · exact Or.inl before
    · cases List.mem_singleton.mp new
      exact Or.inr ⟨p, rfl, proposer, rfl, rfl, encoding⟩

/-- A new round proposes at most once; a locked core hands on its stored proposal. -/
theorem proposeOnEntry_sent (member : .broadcast sent ∈ (proposeOnEntry be d).outputs) :
    .broadcast sent ∈ d.outputs ∨
      ∃ p, sent.view = currentView d ∧ sent.lockedHash = d.current.lockedHash ∧
        (Preprepare.encodeRLP ⟨currentView d, p⟩).bind encodeToBytes = some sent.msg.msg ∧
        (d.current.isHashLocked be.hasBadProposal = true → d.current.proposal = some p) := by
  unfold proposeOnEntry at member
  split at member
  · split at member
    · rcases sendPreprepare_sent member with before | ⟨p, request, _, view, hash, encoded⟩
      · exact Or.inl before
      · exact Or.inr ⟨p, view, hash, encoded, fun _ => request⟩
    · rename_i unlocked
      split at member
      · rcases sendPreprepare_sent member with before | ⟨p, _, _, view, hash, encoded⟩
        · exact Or.inl before
        · exact Or.inr ⟨p, view, hash, encoded, fun locked => absurd locked unlocked⟩
      · exact Or.inl member
  · exact Or.inl member

theorem noProposal_handleCheckedMsg {msg : Message} {src : Address}
    (heard : Heard be c event msg src)
    (uncalled : msg.code = msgRoundChange → newRoundCall c msg = none) :
    NoProposal c (handleCheckedMsg be c msg src).1 := by
  have stored : Silent (eventContext be c event) (dispatch be c msg src).1
      (handleCheckedMsg be c msg src).1 := .quiet (quiet_handleCheckedMsg be c heard)
  refine .trans ?_ stored.noProposal
  by_cases code : msg.code = msgRoundChange
  · rw [dispatch_roundChange be c src code]
    rcases handleRoundChange_cases be c msg with ⟨_, same⟩ | ⟨rc, _, _, outcome⟩
    · rw [same]
      exact .of_outputs rfl
    · rcases outcome with ⟨_, same | sent⟩ | ⟨called, _⟩
      · rw [same]
        exact .of_outputs rfl
      · rw [sent]
        have silent : Silent (unheard be c) (recorded c rc.view.round msg) _ :=
          silent_sendRoundChange (recorded c rc.view.round msg) rc.view.round
        exact .trans (.of_outputs rfl) silent.noProposal
      · rw [uncalled code] at called
        cases called
  · have silent : Silent (eventContext be c event) c (dispatch be c msg src).1 :=
      silent_dispatch rfl heard code
    exact silent.noProposal

theorem noProposal_handleEvent (noRequest : ∀ p, event ≠ .request (some p))
    (uncalled : newRoundCalled be c event = none) :
    NoProposal c (handleEvent be c event) := by
  have handled := handleEvent_handled be c event
  generalize handleEvent be c event = d at handled ⊢
  cases handled with
  | ignored => exact .of_outputs rfl
  | request p => exact absurd rfl (noRequest p)
  | message msg src running heard ends =>
    have silent : NoProposal c (handleCheckedMsg be c msg src).1 := by
      refine noProposal_handleCheckedMsg heard fun code => ?_
      rw [newRoundCalled, if_neg running, show heardMessage be c event = _ from heard] at uncalled
      dsimp only at uncalled
      rwa [if_pos code] at uncalled
    rcases ends with rfl | ⟨payload, rfl⟩
    · exact silent
    · exact silent.trans (.emit (by rintro _ ⟨⟩))
  | timeout => exact (silent_handleTimeoutMsg (eventContext be c .timeout) c).noProposal
  | finalCommitted =>
    have silent : Silent (unheard be c) c (startNewRound be c 0) := silent_startNewSequence c
    exact silent.noProposal

/-- The event of a new round ends with `startNewRound`, and perhaps a gossip. -/
theorem handleEvent_of_call (called : newRoundCalled be c event = some r) :
    ∃ msg, newRoundCall c msg = some r ∧
      (handleEvent be c event = startNewRound be (recorded c r msg) r ∨
        ∃ payload, handleEvent be c event =
          (startNewRound be (recorded c r msg) r).emit (.gossip payload)) := by
  have handled := handleEvent_handled be c event
  generalize handleEvent be c event = d at handled ⊢
  unfold newRoundCalled at called
  split at called
  · cases called
  · rename_i alive
    split at called
    · rename_i msg src heard
      split at called
      · rename_i code
        refine ⟨msg, called, ?_⟩
        have started : handleCheckedMsg be c msg src =
            (startNewRound be (recorded c r msg) r, none) := by
          rcases handleRoundChange_cases be c msg with ⟨uncalled, _⟩ | ⟨rc, _, _, outcome⟩
          · rw [uncalled] at called
            cases called
          · rcases outcome with ⟨uncalled, _⟩ | ⟨same, started⟩
            · rw [uncalled] at called
              cases called
            · obtain rfl := Option.some.inj (same.symm.trans called)
              rw [handleCheckedMsg, dispatch_roundChange be c src code, started]
        cases handled with
        | ignored idle =>
          rcases idle with crashed | unheard
          · exact absurd crashed alive
          · rw [unheard] at heard
            cases heard
        | request | timeout | finalCommitted => cases heard
        | message m source running brought ends =>
          obtain ⟨rfl, rfl⟩ := Prod.mk.inj (Option.some.inj (heard.symm.trans brought))
          rwa [started] at ends
      · cases called
    · cases called

/-! ## Proposing again -/

theorem proposeOnEntry_same (be : Backend P) (d : Core P) :
    (proposeOnEntry be d).current = d.current ∧ (proposeOnEntry be d).valSet = d.valSet ∧
      (proposeOnEntry be d).address = d.address := by
  have sent (request : Option P) : (sendPreprepare be d request).current = d.current ∧
      (sendPreprepare be d request).valSet = d.valSet ∧
      (sendPreprepare be d request).address = d.address := by
    obtain ⟨outputs, crashed, same⟩ := sendPreprepare_frame be d request
    rw [same]
    exact ⟨rfl, rfl, rfl⟩
  unfold proposeOnEntry
  split
  · split
    · exact sent _
    · split
      · exact sent _
      · exact ⟨rfl, rfl, rfl⟩
  · exact ⟨rfl, rfl, rfl⟩

theorem finalizeMessage_congr (be : Backend P) (address : d.address = c.address)
    (other : code ≠ msgCommit) (msg : Bytes) :
    finalizeMessage be d code msg = finalizeMessage be c code msg := by
  simp only [finalizeMessage, committedSeal, sealedHash, if_neg other, address]

/-- A PRE-PREPARE for the locked block is sent, if it can be encoded and signed. -/
def Reproposes (be : Backend P) (d : Core P) : Prop :=
  ∃ p : P, Proposal.hash p = d.current.lockedHash ∧ ∀ encoded final,
    (Preprepare.encodeRLP ⟨currentView d, p⟩).bind encodeToBytes = some encoded →
    finalizeMessage be d msgPreprepare encoded = some final →
    .broadcast ⟨final, currentView d, d.current.lockedHash, none⟩ ∈ d.outputs

theorem proposeOnEntry_reproposes {pp : Preprepare P} (proposer : isProposer d = true)
    (locked : d.current.isHashLocked be.hasBadProposal = true)
    (stored : d.current.preprepare = some pp)
    (hash : Proposal.hash pp.proposal = d.current.lockedHash)
    (number : Proposal.number pp.proposal = d.current.sequence) :
    Reproposes be (proposeOnEntry be d) := by
  obtain ⟨sameCurrent, _, sameAddress⟩ := proposeOnEntry_same be d
  have sameView : currentView (proposeOnEntry be d) = currentView d := by
    rw [currentView, currentView, sameCurrent]
  refine ⟨pp.proposal, by rw [sameCurrent, hash], ?_⟩
  intro encoded final encoding finalized
  rw [sameView] at encoding
  rw [finalizeMessage_congr be sameAddress (by decide)] at finalized
  rw [sameView, sameCurrent, proposeOnEntry, if_pos proposer, if_pos locked]
  have held : d.current.proposal = some pp.proposal := by
    rw [RoundState.proposal, stored, Option.map_some]
  simp only [sendPreprepare, held, number, proposer, and_self, if_true, encoding, broadcast,
    finalized]
  exact List.mem_append_right _ (List.mem_singleton.mpr rfl)

theorem Reproposes.emit (reproposes : Reproposes be d) (output : Output P) :
    Reproposes be (d.emit output) := by
  obtain ⟨p, hash, sends⟩ := reproposes
  refine ⟨p, hash, ?_⟩
  intro encoded final encoding finalized
  exact List.mem_append_left _ (sends encoded final encoding finalized)

/-! ## Runs -/

/-- A core with the hashes that were bad at the last event. -/
structure Watched (P : Type) where
  core : Core P
  bad : Hash → Bool

def lockSystem (P : Type) [Proposal P] (address : Address) :
    System (Watched P) (Backend P × Event P) where
  init := fun s => ∃ be, start be address = some s.core ∧ s.bad = be.hasBadProposal
  enabled := fun s step =>
    Posted s.core step.2 ∧ ∀ h, s.bad h = true → step.1.hasBadProposal h = true
  next := fun s step => ⟨handleEvent step.1 s.core step.2, step.1.hasBadProposal⟩

/-- No request for another block reaches a locked proposer, and the stored proposal is
for the current sequence. -/
structure NoRival (s : Watched P) (step : Backend P × Event P) : Prop where
  request : ∀ p, step.2 = .request (some p) → isProposer s.core = true →
    s.core.current.isHashLocked step.1.hasBadProposal = true →
    Proposal.hash p = s.core.current.lockedHash
  height : ∀ pp, (handleEvent step.1 s.core step.2).current.preprepare = some pp →
    Proposal.number pp.proposal = (handleEvent step.1 s.core step.2).current.sequence

structure LockInv (s : Watched P) : Prop where
  kept : LockKept s.bad s.core.current
  height : ∀ pp, s.core.current.preprepare = some pp →
    Proposal.number pp.proposal = s.core.current.sequence

theorem lockInv_of_reachable {address : Address} {s : Watched P}
    (reached : Reachable (lockSystem P address) NoRival s) : LockInv s := by
  refine reached.invariant LockInv ?_ ?_
  · rintro s ⟨be, started, _⟩
    obtain ⟨last, quiet⟩ := start_eq_some started
    obtain ⟨request, current⟩ := quiet.current
    refine ⟨.of_unlocked ?_, ?_⟩
    · rw [current]
      rfl
    · intro pp stored
      rw [current] at stored
      cases stored
  · intro s step inv enabled noRival
    exact ⟨(inv.kept.mono enabled.2).handleEvent step.2, noRival.height⟩

def LockedAt (bad : Hash → Bool) (sent : Sent) : Prop :=
  emptyHash sent.lockedHash = false ∧ bad sent.lockedHash = false

/-- A message that is sent under a lock proposes or prepares the locked block. -/
def Conforms (P : Type) [Proposal P] (bad : Hash → Bool) (sent : Sent) : Prop :=
  LockedAt bad sent →
    (sent.msg.code = msgPreprepare → ∃ p : P, Proposal.hash p = sent.lockedHash ∧
      (Preprepare.encodeRLP ⟨sent.view, p⟩).bind encodeToBytes = some sent.msg.msg) ∧
    (sent.msg.code = msgPrepare → ∀ sub, sent.msg.decodeSubject = some sub →
      sub.digest = sent.lockedHash)

/-- Under a lock no PREPARE is sent at all. -/
theorem prepare_unlocked (member : .broadcast sent ∈ (handleEvent be c event).outputs)
    (code : sent.msg.code = msgPrepare) :
    .broadcast sent ∈ c.outputs ∨ ¬ LockedAt be.hasBadProposal sent := by
  have inv := kept_by_moves
    (fun d : Core P => ∀ sent, .broadcast sent ∈ d.outputs → sent.msg.code = msgPrepare →
      .broadcast sent ∈ c.outputs ∨ ¬ LockedAt be.hasBadProposal sent)
    ?_ (handleEvent_moves be c event) (fun sent before _ => Or.inl before)
  · exact inv sent member code
  · intro d e move earlier sent member code
    rcases sent_of_move move member with old | ⟨kind, _, _, sameLock, _⟩
    · exact earlier sent old code
    · right
      cases kind with
      | preprepare _ other | commit _ other | oldCommit _ _ _ other | roundChange other =>
        exact absurd (code.symm.trans other) (by decide)
      | prepare sub same decoded subject unlocked =>
        rintro ⟨nonempty, notBad⟩
        rw [sameLock] at nonempty notBad
        have locked := (isHashLocked_iff be.hasBadProposal d.current).mpr ⟨nonempty, notBad⟩
        rw [show (eventContext be c event).be = be from rfl, locked] at unlocked
        cases unlocked

/-- A request is proposed as it is, lock or not. -/
theorem request_sent {p : P}
    (member : .broadcast sent ∈ (handleEvent be c (.request (some p))).outputs) :
    .broadcast sent ∈ c.outputs ∨ isProposer c = true ∧ sent.view = currentView c ∧
      sent.lockedHash = c.current.lockedHash ∧
      (Preprepare.encodeRLP ⟨currentView c, p⟩).bind encodeToBytes = some sent.msg.msg := by
  have handled : .broadcast sent ∈ (handleRequest be c (some p)).1.outputs →
      .broadcast sent ∈ c.outputs ∨ isProposer c = true ∧ sent.view = currentView c ∧
        sent.lockedHash = c.current.lockedHash ∧
        (Preprepare.encodeRLP ⟨currentView c, p⟩).bind encodeToBytes = some sent.msg.msg := by
    intro after
    unfold handleRequest at after
    split at after
    · exact Or.inl after
    · dsimp only at after
      split at after
      · rcases sendPreprepare_sent after with before | ⟨other, same, rest⟩
        · exact Or.inl before
        · cases same
          exact Or.inr rest
      · exact Or.inl after
  have cases := handleEvent_handled be c (.request (some p))
  generalize handleEvent be c (.request (some p)) = d at cases member
  cases cases with
  | ignored => exact Or.inl member
  | message msg src running heard => cases heard
  | request _ ends =>
    rcases ends with rfl | rfl
    · exact handled member
    · exact handled member

omit [Proposal P] in
theorem lockedAt_iff (same : sent.lockedHash = s.lockedHash) :
    LockedAt bad sent ↔ s.isHashLocked bad = true := by
  rw [LockedAt, same, isHashLocked_iff]

/-- What a locked core proposes is its locked block. -/
theorem proposal_conforms {s : Watched P} {step : Backend P × Event P} (inv : LockInv s)
    (grows : ∀ h, s.bad h = true → step.1.hasBadProposal h = true) (noRival : NoRival s step)
    (member : .broadcast sent ∈ (handleEvent step.1 s.core step.2).outputs)
    (code : sent.msg.code = msgPreprepare) (locked : LockedAt step.1.hasBadProposal sent) :
    .broadcast sent ∈ s.core.outputs ∨ ∃ p : P, Proposal.hash p = sent.lockedHash ∧
      (Preprepare.encodeRLP ⟨sent.view, p⟩).bind encodeToBytes = some sent.msg.msg := by
  have kept := inv.kept.mono grows
  cases called : newRoundCalled step.1 s.core step.2 with
  | some r =>
    obtain ⟨msg, _, ended⟩ := handleEvent_of_call called
    have inRound : .broadcast sent ∈
        (startNewRound step.1 (recorded s.core r msg) r).outputs := by
      rcases ended with same | ⟨payload, same⟩
      · rwa [same] at member
      · rw [same] at member
        rcases List.mem_append.mp member with before | gossip
        · exact before
        · cases List.mem_singleton.mp gossip
    rcases startNewRound_cases (unheard step.1 s.core) (recorded s.core r msg) r with
      ⟨silent, _⟩ | ⟨silent, _⟩ | ⟨entered, _, silent, current, same⟩
    · exact Or.inl (silent.noProposal sent inRound code)
    · exact Or.inl (silent.noProposal sent inRound code)
    · rw [show startNewRound step.1 _ r = _ from same] at inRound
      rcases proposeOnEntry_sent inRound with before | ⟨p, view, hash, encoded, stored⟩
      · exact Or.inl (silent.noProposal sent before code)
      · right
        have lockedHere := (lockedAt_iff hash).mp locked
        have keptHere : LockKept step.1.hasBadProposal entered.current := by
          rw [current]
          have keptThere : LockKept step.1.hasBadProposal (recorded s.core r msg).current := kept
          exact keptThere.carried _
        obtain ⟨pp, present, sameHash⟩ := keptHere lockedHere
        have proposal := stored lockedHere
        rw [RoundState.proposal, present, Option.map_some, Option.some.injEq] at proposal
        refine ⟨p, ?_, by rw [view, encoded]⟩
        rw [← proposal, sameHash, hash]
  | none =>
    by_cases request : ∃ p, step.2 = .request (some p)
    · obtain ⟨p, isRequest⟩ := request
      rw [isRequest] at member
      rcases request_sent member with before | ⟨proposer, view, hash, encoded⟩
      · exact Or.inl before
      · have lockedHere := (lockedAt_iff hash).mp locked
        refine Or.inr ⟨p, ?_, by rw [view, encoded]⟩
        rw [noRival.request p isRequest proposer lockedHere, hash]
    · push Not at request
      exact Or.inl (noProposal_handleEvent request called sent member code)

/-- The event has taken the core into round `r` of its sequence as the proposer, with a
locked block. -/
structure EntersLocked (bad : Hash → Bool) (c d : Core P) (r : Nat) : Prop where
  entered : d.waitingForRoundChange = false
  round : d.current.round = r
  sequence : d.current.sequence = c.current.sequence
  proposer : isProposer d = true
  locked : d.current.isHashLocked bad = true

theorem startNewRound_reproposes (kept : LockKept be.hasBadProposal c.current)
    (height : ∀ pp, c.current.preprepare = some pp → Proposal.number pp.proposal = c.current.sequence)
    (asked : c.waitingForRoundChange = true ∨ c.current.round < r)
    (enters : EntersLocked be.hasBadProposal c (startNewRound be c r) r) :
    Reproposes be (startNewRound be c r) := by
  have ends := startNewRound_cases (unheard be c) c r
  rw [show (unheard be c).be = be from rfl] at ends
  rcases ends with ⟨_, current, waiting⟩ | ⟨_, later⟩ | ⟨entered, _, _, current, same⟩
  · -- an early return leaves the core waiting, or in its old round
    have round := enters.round
    rw [current] at round
    rcases asked with stillWaiting | earlier
    · have ended := enters.entered
      rw [waiting, stillWaiting] at ended
      cases ended
    · omega
  · rw [enters.sequence] at later
    exact absurd later (lt_irrefl _)
  · obtain ⟨sameCurrent, sameValSet, sameAddress⟩ := proposeOnEntry_same be entered
    have locked := enters.locked
    have proposer := enters.proposer
    rw [same, sameCurrent] at locked
    rw [same, isProposer, sameValSet, sameAddress] at proposer
    have keptHere : LockKept be.hasBadProposal entered.current := by
      rw [current]
      exact kept.carried _
    obtain ⟨pp, stored, hash⟩ := keptHere locked
    have number : Proposal.number pp.proposal = entered.current.sequence := by
      rw [current] at stored ⊢
      rw [(carried_view be c _).2]
      exact height pp ((carried_commits be c _).2 pp stored)
    rw [same]
    exact proposeOnEntry_reproposes proposer locked stored hash number

/-- While its lock holds a core has the locked block, sends PRE-PREPARE and PREPARE for
no other, and proposes it again when a round change makes it the proposer. -/
theorem lock_keeps_block {address : Address} {s : Watched P}
    (reached : Reachable (lockSystem P address) NoRival s) :
    LockKept s.bad s.core.current ∧
      ∀ step, (lockSystem P address).enabled s step → NoRival s step →
        (∀ sent, .broadcast sent ∈ (handleEvent step.1 s.core step.2).outputs →
          .broadcast sent ∈ s.core.outputs ∨ Conforms P step.1.hasBadProposal sent) ∧
        ∀ r, newRoundCalled step.1 s.core step.2 = some r →
          EntersLocked step.1.hasBadProposal s.core (handleEvent step.1 s.core step.2) r →
          Reproposes step.1 (handleEvent step.1 s.core step.2) := by
  have inv := lockInv_of_reachable reached
  refine ⟨inv.kept, ?_⟩
  rintro step ⟨_, grows⟩ noRival
  refine ⟨?_, ?_⟩
  · intro sent member
    by_cases old : .broadcast sent ∈ s.core.outputs
    · exact Or.inl old
    · refine Or.inr fun locked => ⟨?_, ?_⟩
      · intro code
        exact (proposal_conforms inv grows noRival member code locked).resolve_left old
      · intro code
        rcases prepare_unlocked member code with before | unlocked
        · exact absurd before old
        · exact absurd locked unlocked
  · intro r called enters
    obtain ⟨msg, call, ended⟩ := handleEvent_of_call called
    have kept : LockKept step.1.hasBadProposal (recorded s.core r msg).current :=
      inv.kept.mono grows
    obtain ⟨_, _, _, _, _, _, _, asked⟩ := newRoundCall_eq_some call
    have fromRound : EntersLocked step.1.hasBadProposal (recorded s.core r msg)
        (startNewRound step.1 (recorded s.core r msg) r) r →
        Reproposes step.1 (startNewRound step.1 (recorded s.core r msg) r) :=
      startNewRound_reproposes kept inv.height asked
    rcases ended with same | ⟨payload, same⟩
    · rw [same] at enters ⊢
      exact fromRound { enters with }
    · rw [same] at enters ⊢
      exact (fromRound { enters with }).emit _

/-- An executable form of `NoRival` for a step that is no backlog event. -/
def meetsNoRival (s : Watched P) (step : Backend P × Event P) : Bool :=
  !isBacklog step.2 &&
    (match step.2 with
      | .request (some p) =>
        !(isProposer s.core && s.core.current.isHashLocked step.1.hasBadProposal) ||
          decide (Proposal.hash p = s.core.current.lockedHash)
      | _ => true) &&
    ((handleEvent step.1 s.core step.2).current.preprepare.all fun pp =>
      decide (Proposal.number pp.proposal = (handleEvent step.1 s.core step.2).current.sequence))

theorem meetsNoRival_sound {s : Watched P} {step : Backend P × Event P}
    (meets : meetsNoRival s step = true) : Posted s.core step.2 ∧ NoRival s step := by
  simp only [meetsNoRival, Bool.and_eq_true] at meets
  obtain ⟨⟨external, requests⟩, height⟩ := meets
  refine ⟨posted_of_external external, ?_, ?_⟩
  · intro p isRequest proposer locked
    simp only [isRequest, proposer, locked, Bool.and_self, Bool.not_true, Bool.false_or,
      decide_eq_true_eq] at requests
    exact requests
  · intro pp stored
    rw [stored] at height
    exact of_decide_eq_true height

/-- A run in which the backend answers alike all the time. -/
theorem admits_of_meetsNoRival {address : Address} (steps : List (Backend P × Event P))
    {s : Watched P} (bad : s.bad = be.hasBadProposal) (alike : ∀ step ∈ steps, step.1 = be)
    (meets : checksRun (lockSystem P address).next meetsNoRival s steps = true) :
    Admits (lockSystem P address) NoRival s steps := by
  induction steps generalizing s with
  | nil => trivial
  | cons step rest ih =>
    rw [checksRun, Bool.and_eq_true] at meets
    obtain ⟨posted, noRival⟩ := meetsNoRival_sound meets.1
    have same : step.1 = be := alike step List.mem_cons_self
    refine ⟨⟨posted, ?_⟩, noRival, ih ?_ ?_ meets.2⟩
    · intro h known
      rw [same, ← bad]
      exact known
    · change step.1.hasBadProposal = be.hasBadProposal
      rw [same]
    · intro later member
      exact alike later (List.mem_cons_of_mem _ member)

end Locks

/-! ## A locked proposer -/

def askNextRound (sender : UInt8) : Backend NumberedBlock × Event NumberedBlock :=
  (secondHeight, .message (samplePayload sender sender msgRoundChange
    (Subject.encodeRLP ⟨⟨1, 2⟩, FixedBytes.zero 32⟩) []))

def lockAndAsk : List (Backend NumberedBlock × Event NumberedBlock) :=
  prepareSecond ++ [askNextRound 1, askNextRound 2]

def afterLock (c : Core NumberedBlock) : Watched NumberedBlock :=
  lockAndAsk.foldl (lockSystem NumberedBlock (sampleAddress 3)).next
    ⟨c, secondHeight.hasBadProposal⟩

theorem reachable_afterLock {c : Core NumberedBlock}
    (run : start secondHeight (sampleAddress 3) = some c) :
    Reachable (lockSystem NumberedBlock (sampleAddress 3)) NoRival (afterLock c) := by
  have checked : (start secondHeight (sampleAddress 3)).map (fun c =>
      checksRun (lockSystem NumberedBlock (sampleAddress 3)).next meetsNoRival
        ⟨c, secondHeight.hasBadProposal⟩ lockAndAsk) = some true := by
    decide +kernel
  rw [run, Option.map_some, Option.some.injEq] at checked
  have started : Reachable (lockSystem NumberedBlock (sampleAddress 3)) NoRival
      ⟨c, secondHeight.hasBadProposal⟩ := .init ⟨secondHeight, run, rfl⟩
  refine started.run lockAndAsk (admits_of_meetsNoRival lockAndAsk rfl ?_ checked)
  intro step member
  simp only [lockAndAsk, prepareSecond, askNextRound, List.mem_append, List.mem_cons,
    List.not_mem_nil, or_false] at member
  rcases member with (rfl | rfl | rfl | rfl) | rfl | rfl <;> rfl

/-- The third vote makes validator 3 the proposer of the next round. -/
theorem lock_keeps_block_next_round : ∃ s : Watched NumberedBlock,
    Reachable (lockSystem NumberedBlock (sampleAddress 3)) NoRival s ∧
      s.core.current.isHashLocked s.bad = true ∧ LockKept s.bad s.core.current ∧
      EntersLocked secondHeight.hasBadProposal s.core
        (handleEvent secondHeight s.core (askNextRound 4).2) 1 ∧
      Reproposes secondHeight (handleEvent secondHeight s.core (askNextRound 4).2) := by
  obtain ⟨c, run⟩ := Option.isSome_iff_exists.mp start_secondHeight_isSome
  have checked : (start secondHeight (sampleAddress 3)).map (fun c =>
      let s := afterLock c
      let d := handleEvent secondHeight s.core (askNextRound 4).2
      s.core.current.isHashLocked s.bad && meetsNoRival s (askNextRound 4) &&
        decide (newRoundCalled secondHeight s.core (askNextRound 4).2 = some 1) &&
        !d.waitingForRoundChange && decide (d.current.round = 1) &&
        decide (d.current.sequence = s.core.current.sequence) && isProposer d &&
        d.current.isHashLocked secondHeight.hasBadProposal) = some true := by
    decide +kernel
  rw [run, Option.map_some, Option.some.injEq] at checked
  simp only [Bool.and_eq_true, Bool.not_eq_true', decide_eq_true_eq] at checked
  obtain ⟨⟨⟨⟨⟨⟨⟨locked, meets⟩, called⟩, entered⟩, round⟩, sequence⟩, proposer⟩, stillLocked⟩ :=
    checked
  have reached := reachable_afterLock run
  obtain ⟨posted, noRival⟩ := meetsNoRival_sound meets
  obtain ⟨kept, steps⟩ := lock_keeps_block reached
  have enters : EntersLocked secondHeight.hasBadProposal (afterLock c).core
      (handleEvent secondHeight (afterLock c).core (askNextRound 4).2) 1 :=
    ⟨entered, round, sequence, proposer, stillLocked⟩
  exact ⟨_, reached, locked, kept, enters,
    (steps (askNextRound 4) ⟨posted, fun _ known => known⟩ noRival).2 1 called enters⟩

/-- After the third vote a request for another block of the sequence comes in. -/
def requestWhileLocked : List (Backend NumberedBlock × Event NumberedBlock) :=
  lockAndAsk ++ [askNextRound 4, (secondHeight, .request (some ⟨2, 9⟩))]

/-- Some PRE-PREPARE is for a block other than the one that is locked when it is sent. -/
def proposesAnother (hash : Hash) (c : Core NumberedBlock) : Bool :=
  c.outputs.any fun output =>
    match output with
    | .broadcast sent => decide (sent.msg.code = msgPreprepare) && decide (sent.lockedHash = hash) &&
        (sent.msg.decodePreprepare (P := NumberedBlock)).any fun pp =>
          decide (Proposal.hash pp.proposal ≠ hash)
    | _ => false

/-- In the round it entered as the locked proposer, validator 3 answers a request with a
PRE-PREPARE for another block. -/
theorem locked_proposer_proposes_another : ∃ s : Watched NumberedBlock,
    Reachable (lockSystem NumberedBlock (sampleAddress 3)) (fun _ _ => True) s ∧
      ∃ sent, .broadcast sent ∈ s.core.outputs ∧ sent.msg.code = msgPreprepare ∧
        LockedAt s.bad sent ∧
        ∃ pp : Preprepare NumberedBlock, sent.msg.decodePreprepare = some pp ∧
          Proposal.hash pp.proposal ≠ sent.lockedHash := by
  obtain ⟨c, run⟩ := Option.isSome_iff_exists.mp start_secondHeight_isSome
  have checked : (start secondHeight (sampleAddress 3)).map (fun c =>
      proposesAnother (Proposal.hash (⟨2, 8⟩ : NumberedBlock)) (requestWhileLocked.foldl
        (lockSystem NumberedBlock (sampleAddress 3)).next
        ⟨c, secondHeight.hasBadProposal⟩).core) = some true := by
    decide +kernel
  rw [run, Option.map_some, Option.some.injEq] at checked
  obtain ⟨output, member, found⟩ := List.any_eq_true.mp checked
  split at found
  · rename_i sent
    simp only [Bool.and_eq_true, decide_eq_true_eq] at found
    obtain ⟨⟨code, locked⟩, other⟩ := found
    obtain ⟨pp, decoded, differs⟩ := (Option.any_eq_true _ _).mp other
    have started : Reachable (lockSystem NumberedBlock (sampleAddress 3)) (fun _ _ => True)
        ⟨c, secondHeight.hasBadProposal⟩ := .init ⟨secondHeight, run, rfl⟩
    have reached := started.run requestWhileLocked (by
      repeat' apply And.intro
      all_goals first | trivial | exact fun _ known => known)
    refine ⟨_, reached, sent, member, code, ⟨?_, rfl⟩, pp, decoded, ?_⟩
    · rw [locked]
      decide +kernel
    · rw [locked]
      exact of_decide_eq_true differs
  · cases found

end Linkeye.Dbft.Locks
