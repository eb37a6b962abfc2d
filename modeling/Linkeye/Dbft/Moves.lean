import Linkeye.Dbft.Handlers

/-!
# What a handler can do

Every event handler is a sequence of moves of a few kinds.  `handleEvent_moves`
cuts the handlers into moves once; an invariant of the core is then shown one
kind of move at a time.
-/

set_option autoImplicit false

namespace Linkeye.Dbft.Moves

open Common.Types Rlp.Encode Dbft.Types Round Handlers

section Moves
variable {P : Type} {c d : Core P} {msg : Message} {src : Address} {code : UInt64} {sub : Subject}
  {heard : Message → Address → Prop}

/-- One event at one core: the answers of the backend, the core as the event
finds it, and the message the event brings with its source. -/
structure Context (P : Type) where
  be : Backend P
  origin : Core P
  heard : Message → Address → Prop

/-- A message waits in a backlog or in a posted backlog event. -/
def Queued (c : Core P) (src : Address) (msg : Message) : Prop :=
  (∃ backlog prio, c.backlogs[src]? = some backlog ∧ (msg, prio) ∈ backlog) ∨
    .backlogEvent src msg ∈ c.outputs

def isQuiet : Output P → Bool
  | .broadcast _ => false
  | .commit _ => false
  | .gossip _ => true
  | .backlogEvent _ _ => true
  | .requestEvent _ => true

/-- Only queues, posted events, the pending request and the crash flag change. -/
structure Quiet (heard : Message → Address → Prop) (c d : Core P) : Prop where
  address : d.address = c.address
  state : d.state = c.state
  valSet : d.valSet = c.valSet
  waiting : d.waitingForRoundChange = c.waitingForRoundChange
  current : ∃ request, d.current = { c.current with pendingRequest := request }
  roundChangeSet : d.roundChangeSet = c.roundChangeSet
  outputs : ∃ extra, d.outputs = c.outputs ++ extra ∧ ∀ output ∈ extra, isQuiet output = true
  queued : ∀ src msg, Queued d src msg → Queued c src msg ∨ heard msg src

theorem Quiet.refl (heard : Message → Address → Prop) (c : Core P) : Quiet heard c c where
  address := rfl
  state := rfl
  valSet := rfl
  waiting := rfl
  current := ⟨c.current.pendingRequest, rfl⟩
  roundChangeSet := rfl
  outputs := ⟨[], (List.append_nil _).symm, by simp⟩
  queued := fun _ _ queued => Or.inl queued

theorem Quiet.trans {e : Core P} (first : Quiet heard c d) (second : Quiet heard d e) :
    Quiet heard c e where
  address := second.address.trans first.address
  state := second.state.trans first.state
  valSet := second.valSet.trans first.valSet
  waiting := second.waiting.trans first.waiting
  current := by
    obtain ⟨request, current⟩ := second.current
    obtain ⟨earlier, before⟩ := first.current
    exact ⟨request, by rw [current, before]⟩
  roundChangeSet := second.roundChangeSet.trans first.roundChangeSet
  outputs := by
    obtain ⟨later, outputs, laterQuiet⟩ := second.outputs
    obtain ⟨earlier, before, earlierQuiet⟩ := first.outputs
    exact ⟨earlier ++ later, by rw [outputs, before, List.append_assoc],
      List.forall_mem_append.mpr ⟨earlierQuiet, laterQuiet⟩⟩
  queued := by
    intro src msg queued
    rcases second.queued src msg queued with before | new
    · exact first.queued src msg before
    · exact Or.inr new

theorem Quiet.emit {output : Output P} (quiet : isQuiet output = true)
    (source : ∀ src msg, output = .backlogEvent src msg → heard msg src) :
    Quiet heard c (c.emit output) where
  __ := Quiet.refl heard c
  outputs := ⟨[output], rfl, by simpa using quiet⟩
  queued := by
    rintro src msg (stored | posted)
    · exact Or.inl (Or.inl stored)
    · rcases List.mem_append.mp posted with earlier | new
      · exact Or.inl (Or.inr earlier)
      · exact Or.inr (source src msg (List.mem_singleton.mp new).symm)

theorem Quiet.crash (c : Core P) : Quiet heard c c.crash :=
  { Quiet.refl heard c with }

/-- No PRE-PREPARE has been sent between two cores. -/
def NoProposal (c d : Core P) : Prop :=
  ∀ sent, .broadcast sent ∈ d.outputs → sent.msg.code = msgPreprepare →
    .broadcast sent ∈ c.outputs

theorem NoProposal.trans {e : Core P} (first : NoProposal c d) (second : NoProposal d e) :
    NoProposal c e :=
  fun sent member code => first sent (second sent member code) code

theorem NoProposal.of_outputs (same : d.outputs = c.outputs) : NoProposal c d := by
  intro sent member _
  rw [← same]
  exact member

theorem NoProposal.emit {output : Output P}
    (other : ∀ sent, output = .broadcast sent → sent.msg.code ≠ msgPreprepare) :
    NoProposal c (c.emit output) := by
  intro sent member code
  rcases List.mem_append.mp member with before | new
  · exact before
  · exact absurd code (other sent (List.mem_singleton.mp new).symm)

/-- A PRE-PREPARE, PREPARE or COMMIT that passes is for the current view. -/
theorem checkMessage_eq_none {view : View} (passed : checkMessage c code view = none)
    (consensus : code ≠ msgRoundChange) :
    view = currentView c ∧ c.waitingForRoundChange = false ∧
      (code ≠ msgPreprepare → c.state ≠ .acceptRequest) := by
  unfold checkMessage at passed
  rw [if_neg consensus] at passed
  split at passed
  · cases passed
  · rename_i notLater
    split at passed
    · cases passed
    · rename_i notEarlier
      split at passed
      · cases passed
      · rename_i notWaiting
        refine ⟨View.eq_of_cmp notEarlier notLater, by simpa using notWaiting, ?_⟩
        intro later accepting
        rw [if_pos accepting] at passed
        split at passed
        · cases passed
        · rename_i smallest
          apply later
          rw [msgPreprepare, UInt64.lt_iff_toNat_lt] at smallest
          rw [msgPreprepare, ← UInt64.toNat_inj]
          have zero : (0 : UInt64).toNat = 0 := rfl
          omega

variable [Proposal P]

/-- The round state that a round change carries over. -/
def carried (be : Backend P) (c : Core P) (view : View) : RoundState P :=
  if c.current.isHashLocked be.hasBadProposal = true then
    newRoundState view c.valSet c.current.lockedHash c.current.preprepare c.current.pendingRequest
  else newRoundState view c.valSet (FixedBytes.zero 32) none c.current.pendingRequest

/-- The messages a core may broadcast, with what it knows when it does. -/
inductive Sends (ctx : Context P) (c : Core P) (m : Message) : Prop where
  | preprepare (proposal : P) (code : m.code = msgPreprepare)
      (encoded : (Preprepare.encodeRLP ⟨currentView c, proposal⟩).bind encodeToBytes = some m.msg)
  | prepare (sub : Subject) (code : m.code = msgPrepare) (decoded : m.decodeSubject = some sub)
      (subject : c.current.subject = some sub)
      (unlocked : c.current.isHashLocked ctx.be.hasBadProposal = false)
  | commit (sub : Subject) (code : m.code = msgCommit) (decoded : m.decodeSubject = some sub)
      (subject : c.current.subject = some sub) (locked : c.current.lockedHash = sub.digest)
  | oldCommit (msg : Message) (src : Address) (pp : Preprepare P) (code : m.code = msgCommit)
      (decoded : m.decodeSubject = some ⟨pp.view, Proposal.hash pp.proposal⟩)
      (unmoved : c = ctx.origin) (heard : ctx.heard msg src) (isPreprepare : msg.code = msgPreprepare)
      (decodedPreprepare : msg.decodePreprepare = some pp)
      (old : checkMessage c msgPreprepare pp.view = some .oldMessage)
      (known : isOldBlock ctx.be pp src = true)
  | roundChange (code : m.code = msgRoundChange)
      (decoded : m.decodeSubject = some ⟨currentView c, FixedBytes.zero 32⟩)
      (waiting : c.waitingForRoundChange = true)

inductive Move (ctx : Context P) : Core P → Core P → Prop where
  | quiet {c d : Core P} (quiet : Quiet ctx.heard c d) : Move ctx c d
  | send {c : Core P} (m : Message) (sender : m.address = c.address) (kind : Sends ctx c m) :
      Move ctx c (c.emit (.broadcast
        ⟨m, currentView c, c.current.lockedHash, sealedHash c m.code⟩))
  | newSequence {c : Core P} (last : P) (advance : c.current.sequence ≤ Proposal.number last) :
      Move ctx c { c with
        valSet := (ctx.be.validators last).calcProposer ctx.be.lastProposal.2 0
        roundChangeSet := newRoundChangeSet (ctx.be.validators last)
        current := newRoundState ⟨0, Proposal.number last + 1⟩ (ctx.be.validators last)
          (FixedBytes.zero 32) none none
        waitingForRoundChange := false
        state := .acceptRequest }
  | newRound {c : Core P} (round : Nat) (advance : c.current.round ≤ round) :
      Move ctx c { c with
        valSet := c.valSet.calcProposer ctx.be.lastProposal.2 round
        roundChangeSet := newRoundChangeSet c.valSet
        current := carried ctx.be c ⟨round, c.current.sequence⟩
        waitingForRoundChange := false
        state := .acceptRequest }
  | catchUp {c : Core P} (round : Nat) (advance : c.current.round < round) :
      Move ctx c { c with
        waitingForRoundChange := true
        current := carried ctx.be c ⟨round, c.current.sequence⟩
        roundChangeSet := c.roundChangeSet.clear round }
  | acceptPreprepare {c : Core P} (pp : Preprepare P) (next : State)
      (accepting : c.state = .acceptRequest) (sameView : pp.view = currentView c)
      (verified : ctx.be.verify pp.proposal = .ok)
      (lock : c.current.isHashLocked ctx.be.hasBadProposal = true →
        Proposal.hash pp.proposal = c.current.lockedHash)
      (leaves : next ≠ .acceptRequest) :
      Move ctx c { acceptPreprepare c pp with state := next }
  | recordPrepare {c : Core P} (m : Message) (src : Address) (sub : Subject)
      (prepares : MessageSet) (unmoved : c = ctx.origin) (heard : ctx.heard m src) (code : m.code = msgPrepare)
      (decoded : m.decodeSubject = some sub) (subject : c.current.subject = some sub)
      (left : c.state ≠ .acceptRequest) (added : c.current.prepares.add m = .ok prepares) :
      Move ctx c { c with current := { c.current with prepares := prepares } }
  | recordCommit {c : Core P} (m : Message) (src : Address) (sub : Subject)
      (commits : MessageSet) (unmoved : c = ctx.origin) (heard : ctx.heard m src) (code : m.code = msgCommit)
      (decoded : m.decodeSubject = some sub) (subject : c.current.subject = some sub)
      (left : c.state ≠ .acceptRequest) (added : c.current.commits.add m = .ok commits) :
      Move ctx c { c with current := { c.current with commits := commits } }
  | recordRoundChange {c : Core P} (m : Message) (src : Address) (sub : Subject)
      (heard : ctx.heard m src) (code : m.code = msgRoundChange)
      (decoded : m.decodeSubject = some sub) :
      Move ctx c { c with roundChangeSet := (c.roundChangeSet.add sub.view.round m).1 }
  | lock {c : Core P} (next : State) (leaves : next ≠ .acceptRequest) :
      Move ctx c { c with current := c.current.lockHash, state := next }
  | commit {c : Core P} (proposal : P) (held : c.current.proposal = some proposal)
      (quorum : c.valSet.exceedsTwoF c.current.commits.size = true) :
      Move ctx c (c.emit (.commit ⟨currentView c, c.valSet, proposal,
        (ctx.be.rangeOrder c.current.commits.values).map copySeal⟩))
  | unlock {c : Core P} (proposal : P) (seals : List Bytes)
      (failed : ctx.be.commit proposal seals = false) :
      Move ctx c { c with current := c.current.unlockHash }

abbrev MoveSeq (ctx : Context P) : Core P → Core P → Prop := Relation.ReflTransGen (Move ctx)

/-! ## Queues -/

theorem mem_push {α : Type} (value : α) (prio : Int) (queue : Prque α) (entry : α × Int) :
    entry ∈ Prque.push value prio queue ↔ entry = (value, prio) ∨ entry ∈ queue := by
  induction queue with
  | nil => simp [Prque.push]
  | cons first rest ih =>
    unfold Prque.push
    split
    · simp
    · simp only [List.mem_cons, ih]
      tauto

theorem drainBacklog_kept {queue : Prque Message} {entry : Message × Int}
    (kept : entry ∈ (drainBacklog c queue).1) : entry ∈ queue := by
  induction queue with
  | nil => exact kept
  | cons first rest ih =>
    unfold drainBacklog at kept
    split at kept
    · exact List.mem_cons_of_mem _ (ih kept)
    · split at kept
      · rw [mem_push] at kept
        exact List.mem_cons.mpr kept
      · exact List.mem_cons_of_mem _ (ih kept)
      · exact List.mem_cons_of_mem _ (ih kept)

theorem drainBacklog_posted {queue : Prque Message} (posted : msg ∈ (drainBacklog c queue).2) :
    ∃ prio, (msg, prio) ∈ queue := by
  induction queue with
  | nil => simp [drainBacklog] at posted
  | cons first rest ih =>
    obtain ⟨stored, prio⟩ := first
    have fromRest : msg ∈ (drainBacklog c rest).2 →
        ∃ prio', (msg, prio') ∈ (stored, prio) :: rest := by
      intro later
      obtain ⟨prio', member⟩ := ih later
      exact ⟨prio', List.mem_cons_of_mem _ member⟩
    unfold drainBacklog at posted
    split at posted
    · exact fromRest posted
    · split at posted
      · simp at posted
      · exact fromRest posted
      · rcases List.mem_cons.mp posted with rfl | later
        · exact ⟨prio, List.mem_cons_self⟩
        · exact fromRest later

/-! ## Quiet changes -/

theorem quiet_processBacklog (c : Core P) : Quiet heard c (processBacklog c) where
  __ := Quiet.refl heard c
  outputs := by
    refine ⟨_, rfl, ?_⟩
    intro output member
    obtain ⟨entry, _, posted⟩ := List.mem_flatMap.mp member
    obtain ⟨msg, _, rfl⟩ := List.mem_map.mp posted
    rfl
  queued := by
    rintro src msg (⟨backlog, prio, found, member⟩ | posted)
    · simp only [processBacklog, Std.ExtTreeMap.getElem?_map, Option.map_eq_some_iff] at found
      obtain ⟨before, stored, rfl⟩ := found
      exact Or.inl (Or.inl ⟨before, prio, stored, drainBacklog_kept member⟩)
    · rcases List.mem_append.mp posted with earlier | new
      · exact Or.inl (Or.inr earlier)
      · obtain ⟨⟨key, queue⟩, stored, drained⟩ := List.mem_flatMap.mp new
        obtain ⟨posted, member, same⟩ := List.mem_map.mp drained
        cases same
        obtain ⟨prio, inQueue⟩ := drainBacklog_posted member
        rw [Std.ExtTreeMap.mem_toList_iff_getElem?_eq_some] at stored
        exact Or.inl (Or.inl ⟨queue, prio, stored, inQueue⟩)

theorem quiet_processPendingRequests (c : Core P) : Quiet heard c (processPendingRequests c) where
  __ := Quiet.refl heard c
  outputs := by
    refine ⟨_, rfl, ?_⟩
    intro output member
    obtain ⟨proposal, _, rfl⟩ := List.mem_map.mp member
    rfl
  queued := by
    rintro src msg (stored | posted)
    · exact Or.inl (Or.inl stored)
    · rcases List.mem_append.mp posted with earlier | new
      · exact Or.inl (Or.inr earlier)
      · obtain ⟨proposal, _, other⟩ := List.mem_map.mp new
        cases other

theorem quiet_setState (c : Core P) (state : State) :
    Quiet heard { c with state := state } (setState c state) := by
  unfold setState
  split
  · exact (quiet_processPendingRequests _).trans (quiet_processBacklog _)
  · exact quiet_processBacklog _

theorem quiet_storeBacklog (brought : heard msg src) : Quiet heard c (storeBacklog c msg src) := by
  unfold storeBacklog
  split
  · exact Quiet.refl heard c
  · refine { Quiet.refl heard c with queued := ?_ }
    rintro other queued (⟨backlog, prio, found, member⟩ | posted)
    · simp only [Std.ExtTreeMap.getElem?_insert] at found
      split at found
      · rename_i same
        rw [← Std.LawfulEqOrd.eq_of_compare same]
        cases found
        have kept : (queued, prio) ∈ c.backlogs[src]?.getD [] → Queued c src queued := by
          intro before
          cases stored : c.backlogs[src]? with
          | none =>
            rw [stored] at before
            cases before
          | some queue =>
            rw [stored] at before
            exact Or.inl ⟨queue, prio, stored, before⟩
        split at member
        · rw [mem_push] at member
          rcases member with new | before
          · cases new
            exact Or.inr brought
          · exact Or.inl (kept before)
        · exact Or.inl (kept member)
      · exact Or.inl (Or.inl ⟨backlog, prio, found, member⟩)
    · exact Or.inl (Or.inr posted)

/-! ## Silence -/

section Methods
variable {ctx : Context P}

/-- Moves that send no PRE-PREPARE. -/
structure Silent (ctx : Context P) (c d : Core P) : Prop where
  moves : MoveSeq ctx c d
  noProposal : NoProposal c d

theorem Silent.refl (c : Core P) : Silent ctx c c :=
  ⟨.refl, .of_outputs rfl⟩

theorem Silent.trans {e : Core P} (first : Silent ctx c d) (second : Silent ctx d e) :
    Silent ctx c e :=
  ⟨first.moves.trans second.moves, first.noProposal.trans second.noProposal⟩

theorem Silent.single (move : Move ctx c d) (same : d.outputs = c.outputs) : Silent ctx c d :=
  ⟨.single move, .of_outputs same⟩

theorem Silent.quiet (quiet : Quiet ctx.heard c d) : Silent ctx c d := by
  refine ⟨.single (.quiet quiet), ?_⟩
  intro sent member _
  obtain ⟨extra, outputs, silent⟩ := quiet.outputs
  rw [outputs, List.mem_append] at member
  rcases member with before | new
  · exact before
  · cases silent _ new

/-! ## The methods as moves -/

theorem silent_setState {state : State} (before : Silent ctx c { d with state := state }) :
    Silent ctx c (setState d state) :=
  before.trans (.quiet (quiet_setState d state))

theorem finalizeMessage_eq_some {be : Backend P} {msg : Bytes} {final : Message}
    (success : finalizeMessage be c code msg = some final) :
    final.code = code ∧ final.msg = msg ∧ final.address = c.address := by
  simp only [finalizeMessage, bind, Option.bind_eq_some_iff, pure] at success
  obtain ⟨committedSeal, _, data, _, signature, _, payload, _, same⟩ := success
  cases same
  exact ⟨rfl, rfl, rfl⟩

theorem moves_broadcast {msg : Bytes}
    (kind : ∀ m : Message, m.code = code → m.msg = msg → Sends ctx c m) :
    MoveSeq ctx c (broadcast ctx.be c code msg) := by
  unfold broadcast
  split
  · exact .refl
  · rename_i final finalized
    obtain ⟨rfl, content, sender⟩ := finalizeMessage_eq_some finalized
    exact .single (.send final sender (kind final rfl content))

theorem noProposal_broadcast {be : Backend P} {msg : Bytes} (other : code ≠ msgPreprepare) :
    NoProposal c (broadcast be c code msg) := by
  unfold broadcast
  split
  · exact .of_outputs rfl
  · rename_i final finalized
    obtain ⟨same, _, _⟩ := finalizeMessage_eq_some finalized
    refine .emit ?_
    intro sent new
    cases new
    rw [same]
    exact other

theorem silent_broadcastSubject (other : code ≠ msgPreprepare)
    (kind : ∀ m : Message, m.code = code → m.decodeSubject = some sub → Sends ctx c m) :
    Silent ctx c (broadcastSubject ctx.be c code sub) := by
  unfold broadcastSubject
  split
  · exact .refl c
  · rename_i encoded encoding
    refine ⟨moves_broadcast ?_, noProposal_broadcast other⟩
    intro m sameCode content
    exact kind m sameCode (Message.decodeSubject_encoded (content ▸ encoding))

/-- Nothing happens, or the core crashes on a nil request, or it sends one PRE-PREPARE. -/
theorem sendPreprepare_cases (be : Backend P) (c : Core P) (request : Option P) :
    sendPreprepare be c request = c ∨ sendPreprepare be c request = c.crash ∨
      ∃ p final, request = some p ∧ isProposer c = true ∧ final.code = msgPreprepare ∧
        final.address = c.address ∧
        (Preprepare.encodeRLP ⟨currentView c, p⟩).bind encodeToBytes = some final.msg ∧
        sendPreprepare be c request = c.emit (.broadcast
          ⟨final, currentView c, c.current.lockedHash, sealedHash c final.code⟩) := by
  unfold sendPreprepare broadcast
  split
  · exact Or.inr (Or.inl rfl)
  · split
    · rename_i may
      split
      · exact Or.inl rfl
      · rename_i encoded encoding
        split
        · exact Or.inl rfl
        · rename_i final finalized
          obtain ⟨code, rfl, sender⟩ := finalizeMessage_eq_some finalized
          exact Or.inr (Or.inr ⟨_, final, rfl, may.2, code, sender, encoding, by rw [code]⟩)
    · exact Or.inl rfl

theorem moves_sendPreprepare (request : Option P) :
    MoveSeq ctx c (sendPreprepare ctx.be c request) := by
  rcases sendPreprepare_cases ctx.be c request with
    same | same | ⟨p, final, _, _, code, sender, encoding, same⟩ <;> rw [same]
  · exact .single (.quiet (Quiet.crash c))
  · exact .single (.send final sender (.preprepare p code encoding))

theorem sendPreprepare_frame (be : Backend P) (c : Core P) (request : Option P) :
    ∃ outputs crashed,
      sendPreprepare be c request = { c with outputs := outputs, crashed := crashed } := by
  rcases sendPreprepare_cases be c request with same | same | ⟨_, _, _, _, _, _, _, same⟩ <;>
    exact ⟨_, _, same⟩

theorem silent_sendPrepare (unlocked : c.current.isHashLocked ctx.be.hasBadProposal = false) :
    Silent ctx c (sendPrepare ctx.be c) := by
  unfold sendPrepare
  split
  · exact .quiet (Quiet.crash c)
  · rename_i sub subject
    apply silent_broadcastSubject (by decide)
    intro m code decoded
    exact .prepare sub code decoded subject unlocked

theorem silent_sendCommit
    (locked : ∀ sub, c.current.subject = some sub → c.current.lockedHash = sub.digest) :
    Silent ctx c (sendCommit ctx.be c) := by
  unfold sendCommit
  split
  · exact .quiet (Quiet.crash c)
  · rename_i sub subject
    apply silent_broadcastSubject (by decide)
    intro m code decoded
    exact .commit sub code decoded subject (locked sub subject)

theorem silent_sendRoundChange (c : Core P) (round : Nat) :
    Silent ctx c (sendRoundChange ctx.be c round) := by
  unfold sendRoundChange
  split
  · exact .refl c
  · rename_i later
    have caughtUp : Silent ctx c (catchUpRound ctx.be c ⟨round, (currentView c).sequence⟩) :=
      .single (.catchUp round (not_le.mp later)) rfl
    refine caughtUp.trans (silent_broadcastSubject (by decide) ?_)
    intro m code decoded
    exact .roundChange code decoded rfl

theorem silent_sendNextRoundChange (c : Core P) :
    Silent ctx c (sendNextRoundChange ctx.be c) :=
  silent_sendRoundChange c _

@[simp] theorem setState_current (c : Core P) (state : State) :
    (setState c state).current = c.current := by
  unfold setState
  split <;> rfl

@[simp] theorem setState_valSet (c : Core P) (state : State) :
    (setState c state).valSet = c.valSet := by
  unfold setState
  split <;> rfl

/-- The end of `startNewRound` on a round change. -/
def proposeOnEntry (be : Backend P) (d : Core P) : Core P :=
  if isProposer d = true then
    if d.current.isHashLocked be.hasBadProposal = true then
      sendPreprepare be d d.current.proposal
    else
      match d.current.pendingRequest with
      | some request => sendPreprepare be d (some request)
      | none => d
  else d

/-- `startNewRound` returns early, or starts a new sequence, or enters the round. -/
theorem startNewRound_cases (ctx : Context P) (c : Core P) (round : Nat) :
    Silent ctx c (startNewRound ctx.be c round) ∧
        (startNewRound ctx.be c round).current = c.current ∧
        (startNewRound ctx.be c round).waitingForRoundChange = c.waitingForRoundChange ∨
      Silent ctx c (startNewRound ctx.be c round) ∧
        c.current.sequence < (startNewRound ctx.be c round).current.sequence ∨
      ∃ entered, round ≠ 0 ∧ Silent ctx c entered ∧
        entered.current = carried ctx.be c ⟨round, c.current.sequence⟩ ∧
        startNewRound ctx.be c round = proposeOnEntry ctx.be entered := by
  unfold startNewRound
  split
  · exact Or.inl ⟨.quiet (Quiet.crash c), rfl, rfl⟩
  · rename_i last _
    split
    · rename_i advance
      right; left
      exact ⟨silent_setState (.single (.newSequence last advance) rfl), Nat.lt_succ_of_le advance⟩
    · split
      · split
        · exact Or.inl ⟨.refl c, rfl, rfl⟩
        · rename_i nonzero
          split
          · exact Or.inl ⟨.refl c, rfl, rfl⟩
          · rename_i later
            right; right
            refine ⟨setState { c with
              valSet := c.valSet.calcProposer ctx.be.lastProposal.2 round
              roundChangeSet := newRoundChangeSet c.valSet
              current := carried ctx.be c ⟨round, c.current.sequence⟩
              waitingForRoundChange := false } .acceptRequest, nonzero,
              silent_setState (.single (.newRound round (not_lt.mp later)) rfl),
              setState_current _ _, ?_⟩
            simp only [enterNewRound, true_and]
            rfl
      · exact Or.inl ⟨.refl c, rfl, rfl⟩

theorem moves_startNewRound (c : Core P) (round : Nat) :
    MoveSeq ctx c (startNewRound ctx.be c round) := by
  rcases startNewRound_cases ctx c round with
    ⟨silent, _⟩ | ⟨silent, _⟩ | ⟨entered, _, silent, _, same⟩
  · exact silent.moves
  · exact silent.moves
  · rw [same, proposeOnEntry]
    split
    · split
      · exact silent.moves.trans (moves_sendPreprepare _)
      · split
        · exact silent.moves.trans (moves_sendPreprepare _)
        · exact silent.moves
    · exact silent.moves

theorem silent_startNewSequence (c : Core P) : Silent ctx c (startNewRound ctx.be c 0) := by
  rcases startNewRound_cases ctx c 0 with ⟨silent, _⟩ | ⟨silent, _⟩ | ⟨_, nonzero, _⟩
  · exact silent
  · exact silent
  · exact absurd rfl nonzero

/-! ## The handlers as moves -/

theorem lockHash_digest {s : RoundState P} (subject : s.lockHash.subject = some sub) :
    s.lockHash.lockedHash = sub.digest := by
  unfold RoundState.lockHash at subject ⊢
  split at subject
  · rename_i pp stored
    simp only [RoundState.subject, stored, Option.map_some, Option.some.injEq] at subject
    rw [← subject]
  · rename_i missing
    simp only [RoundState.subject, missing, Option.map_none] at subject
    cases subject

theorem silent_handlePreprepare (origin : c = ctx.origin) (brought : ctx.heard msg src)
    (code : msg.code = msgPreprepare) :
    Silent ctx c (handlePreprepare ctx.be c msg src).1 := by
  unfold handlePreprepare
  split
  · exact .refl c
  · rename_i pp decoded
    split
    · rename_i err check
      split
      · rename_i reply
        obtain ⟨rfl, known⟩ := reply
        dsimp only [sendCommitForOldBlock, broadcastCommit]
        apply silent_broadcastSubject (by decide)
        intro m sameCode sameSubject
        exact .oldCommit msg src pp sameCode sameSubject origin brought code decoded check known
      · exact .refl c
    · rename_i check
      obtain ⟨sameView, _, _⟩ := checkMessage_eq_none check (by decide)
      split
      · split
        · exact .quiet (Quiet.emit rfl (by rintro _ _ same; cases same; exact brought))
        · exact silent_sendNextRoundChange c
        · rename_i verified
          split
          · rename_i accepting
            split
            · split
              · rename_i _ locked
                have accepted : Silent ctx c (setState (acceptPreprepare c pp) .prepared) :=
                  silent_setState (.single (.acceptPreprepare pp .prepared accepting sameView
                    verified (fun _ => locked) (by decide)) rfl)
                dsimp only
                refine accepted.trans (silent_sendCommit ?_)
                intro sub subject
                simp only [setState_current, acceptPreprepare, RoundState.setPreprepare,
                  RoundState.subject, Option.map_some, Option.some.injEq] at subject ⊢
                rw [← subject, locked]
              · exact silent_sendNextRoundChange c
            · rename_i unlocked
              have accepted : Silent ctx c (setState (acceptPreprepare c pp) .preprepared) :=
                silent_setState (.single (.acceptPreprepare pp .preprepared accepting sameView
                  verified (fun locked => absurd locked unlocked) (by decide)) rfl)
              dsimp only
              refine accepted.trans (silent_sendPrepare ?_)
              rw [setState_current]
              exact Bool.eq_false_iff.mpr unlocked
          · exact .refl c
      · exact .refl c

theorem verifySubject_eq_none (passed : verifySubject c sub = none) :
    c.current.subject = some sub := by
  unfold verifySubject at passed
  split at passed
  · rename_i same
    exact same.symm
  · cases passed

theorem silent_handlePrepare (origin : c = ctx.origin) (brought : ctx.heard msg src)
    (code : msg.code = msgPrepare) :
    Silent ctx c (handlePrepare ctx.be c msg).1 := by
  unfold handlePrepare
  split
  · exact .refl c
  · rename_i prepare decoded
    split
    · exact .refl c
    · rename_i check
      obtain ⟨_, _, left⟩ := checkMessage_eq_none check (by decide)
      split
      · exact .refl c
      · rename_i verified
        have accepted : Silent ctx c (acceptPrepare c msg) := by
          unfold acceptPrepare
          split
          · exact .refl c
          · rename_i prepares added
            exact .single (.recordPrepare msg src prepare prepares origin brought code decoded
              (verifySubject_eq_none verified) (left (by decide)) added) rfl
        dsimp only
        split
        · have locked : Silent ctx (acceptPrepare c msg) (setState { acceptPrepare c msg with
              current := (acceptPrepare c msg).current.lockHash } .prepared) :=
            silent_setState (.single (.lock .prepared (by decide)) rfl)
          refine accepted.trans (locked.trans (silent_sendCommit ?_))
          intro sub subject
          rw [setState_current] at subject ⊢
          exact lockHash_digest subject
        · exact accepted

theorem silent_commit (quorum : c.valSet.exceedsTwoF c.current.commits.size = true) :
    Silent ctx c (commit ctx.be { c with current := c.current.lockHash }) := by
  have locked : Silent ctx c (setState { c with current := c.current.lockHash } .committed) :=
    silent_setState (.single (.lock .committed (by decide)) rfl)
  have sameCommits : c.current.lockHash.commits = c.current.commits := by
    unfold RoundState.lockHash
    split <;> rfl
  unfold commit
  dsimp only
  split
  · exact locked
  · rename_i proposal held
    have committed := locked.trans ⟨.single (.commit proposal held (by
      rw [setState_current, setState_valSet, sameCommits]
      exact quorum)), .emit (by rintro _ ⟨⟩)⟩
    split
    · exact committed
    · rename_i failed
      exact committed.trans (.trans (.single (.unlock proposal _ (Bool.eq_false_iff.mpr failed)) rfl)
        (silent_sendNextRoundChange _))

theorem silent_handleCommit (origin : c = ctx.origin) (brought : ctx.heard msg src)
    (code : msg.code = msgCommit) :
    Silent ctx c (handleCommit ctx.be c msg).1 := by
  unfold handleCommit
  split
  · exact .refl c
  · rename_i sub decoded
    split
    · exact .refl c
    · rename_i check
      obtain ⟨_, _, left⟩ := checkMessage_eq_none check (by decide)
      split
      · exact .refl c
      · rename_i verified
        have accepted : Silent ctx c (acceptCommit c msg) := by
          unfold acceptCommit
          split
          · exact .refl c
          · rename_i commits added
            exact .single (.recordCommit msg src sub commits origin brought code decoded
              (verifySubject_eq_none verified) (left (by decide)) added) rfl
        dsimp only
        split
        · rename_i reached
          exact accepted.trans (silent_commit reached.1)
        · exact accepted

theorem moves_handleRoundChange (brought : ctx.heard msg src) (code : msg.code = msgRoundChange) :
    MoveSeq ctx c (handleRoundChange ctx.be c msg).1 := by
  unfold handleRoundChange
  split
  · exact .refl
  · rename_i rc decoded
    split
    · exact .refl
    · have recorded : MoveSeq ctx c
          { c with roundChangeSet := (c.roundChangeSet.add rc.view.round msg).1 } :=
        .single (.recordRoundChange msg src rc brought code decoded)
      dsimp only
      split
      · exact recorded
      · split
        · split
          · exact recorded.trans (silent_sendRoundChange _ _).moves
          · exact recorded
        · split
          · exact recorded.trans (moves_startNewRound _ _)
          · split
            · exact recorded
            · exact recorded

theorem dispatch_roundChange (be : Backend P) (c : Core P) (src : Address)
    (code : msg.code = msgRoundChange) :
    dispatch be c msg src = handleRoundChange be c msg := by
  simp only [dispatch, code]
  rfl

/-- Only a ROUND CHANGE can lead to a proposal. -/
theorem silent_dispatch (origin : c = ctx.origin) (brought : ctx.heard msg src)
    (other : msg.code ≠ msgRoundChange) : Silent ctx c (dispatch ctx.be c msg src).1 := by
  unfold dispatch
  split
  · rename_i code
    exact silent_handlePreprepare origin brought code
  · split
    · rename_i code
      exact silent_handlePrepare origin brought code
    · split
      · rename_i code
        exact silent_handleCommit origin brought code
      · exact .refl c

theorem quiet_handleCheckedMsg {heard : Message → Address → Prop} (be : Backend P) (c : Core P)
    (brought : heard msg src) :
    Quiet heard (dispatch be c msg src).1 (handleCheckedMsg be c msg src).1 := by
  unfold handleCheckedMsg
  split
  · rename_i after future
    rw [future]
    exact quiet_storeBacklog brought
  · exact Quiet.refl heard _

theorem moves_handleCheckedMsg (origin : c = ctx.origin) (brought : ctx.heard msg src) :
    MoveSeq ctx c (handleCheckedMsg ctx.be c msg src).1 := by
  have dispatched : MoveSeq ctx c (dispatch ctx.be c msg src).1 := by
    by_cases code : msg.code = msgRoundChange
    · rw [dispatch_roundChange ctx.be c src code]
      exact moves_handleRoundChange brought code
    · exact (silent_dispatch origin brought code).moves
  exact dispatched.tail (.quiet (quiet_handleCheckedMsg ctx.be c brought))

end Methods

/-! ## Events -/

def heardMessage (be : Backend P) (c : Core P) : Event P → Option (Message × Address)
  | .message payload => (checkPayload be.crypto c.valSet payload).toOption
  | .backlog src msg => some (msg, src)
  | _ => none

def Heard (be : Backend P) (c : Core P) (event : Event P) (msg : Message) (src : Address) : Prop :=
  heardMessage be c event = some (msg, src)

omit [Proposal P] in
theorem heard_message_iff {be : Backend P} {payload : Bytes} :
    Heard be c (.message payload) msg src ↔
      checkPayload be.crypto c.valSet payload = .ok (msg, src) := by
  change (checkPayload be.crypto c.valSet payload).toOption = _ ↔ _
  cases checkPayload be.crypto c.valSet payload <;> simp [Except.toOption]

def eventContext (be : Backend P) (c : Core P) (event : Event P) : Context P :=
  ⟨be, c, Heard be c event⟩

theorem moves_handleRequest (ctx : Context P) (c : Core P) (request : Option P) :
    MoveSeq ctx c (handleRequest ctx.be c request).1 := by
  unfold handleRequest
  split
  · exact .refl
  · have stored : MoveSeq ctx c
        { c with current := { c.current with pendingRequest := request } } :=
      .single (.quiet { Quiet.refl ctx.heard c with current := ⟨request, rfl⟩ })
    dsimp only
    split
    · exact stored.trans (moves_sendPreprepare request)
    · exact stored

theorem silent_handleTimeoutMsg (ctx : Context P) (c : Core P) :
    Silent ctx c (handleTimeoutMsg ctx.be c) := by
  unfold handleTimeoutMsg
  dsimp only
  split
  · exact silent_sendRoundChange c _
  · split
    · split
      · exact silent_startNewSequence c
      · exact silent_sendNextRoundChange c
    · exact silent_sendNextRoundChange c

/-- What becomes of a core that is handed an event: a future request is stored, and a
message that is handled may be gossiped. -/
inductive Handled (be : Backend P) (c : Core P) : Event P → Core P → Prop where
  | ignored {event : Event P} (idle : c.crashed = true ∨ heardMessage be c event = none) :
      Handled be c event c
  | request {d : Core P} (p : P)
      (ends : d = (handleRequest be c (some p)).1 ∨
        d = storeRequestMsg (handleRequest be c (some p)).1 p) :
      Handled be c (.request (some p)) d
  | message {event : Event P} {d : Core P} (msg : Message) (src : Address)
      (running : ¬ c.crashed = true) (heard : Heard be c event msg src)
      (ends : d = (handleCheckedMsg be c msg src).1 ∨
        ∃ payload, d = (handleCheckedMsg be c msg src).1.emit (.gossip payload)) :
      Handled be c event d
  | timeout : Handled be c .timeout (handleTimeoutMsg be c)
  | finalCommitted : Handled be c .finalCommitted (startNewRound be c 0)

theorem handleEvent_handled (be : Backend P) (c : Core P) (event : Event P) :
    Handled be c event (handleEvent be c event) := by
  rw [handleEvent.eq_def]
  split
  · rename_i crashed
    exact .ignored (Or.inl crashed)
  · rename_i running
    cases event with
    | request proposal =>
      cases proposal with
      | none => exact .ignored (Or.inr rfl)
      | some p =>
        refine .request p ?_
        dsimp only
        rcases handleRequest be c (some p) with ⟨after, _ | err⟩
        · exact Or.inl rfl
        · cases err <;> first | exact Or.inl rfl | exact Or.inr rfl
    | message payload =>
      dsimp only [handleMsg]
      cases passed : checkPayload be.crypto c.valSet payload with
      | error err => exact .ignored (Or.inr (by rw [heardMessage, passed]; rfl))
      | ok pair =>
        refine .message pair.1 pair.2 running (heard_message_iff.mpr passed) ?_
        dsimp only
        rcases handleCheckedMsg be c pair.1 pair.2 with ⟨after, _ | err⟩
        · exact Or.inr ⟨payload, rfl⟩
        · exact Or.inl rfl
    | backlog src msg =>
      refine .message msg src running rfl ?_
      dsimp only
      rcases handleCheckedMsg be c msg src with ⟨after, _ | err⟩
      · dsimp only
        split
        · exact Or.inr ⟨_, rfl⟩
        · exact Or.inl rfl
      · exact Or.inl rfl
    | timeout => exact .timeout
    | finalCommitted => exact .finalCommitted

theorem handleEvent_moves (be : Backend P) (c : Core P) (event : Event P) :
    MoveSeq (eventContext be c event) c (handleEvent be c event) := by
  have handled := handleEvent_handled be c event
  generalize handleEvent be c event = d at handled ⊢
  cases handled with
  | ignored => exact .refl
  | request p ends =>
    have moves := moves_handleRequest (eventContext be c (.request (some p))) c (some p)
    rcases ends with rfl | rfl
    · exact moves
    · exact moves.tail (.quiet { Quiet.refl _ _ with })
  | message msg src running heard ends =>
    have moves : MoveSeq (eventContext be c event) c (handleCheckedMsg be c msg src).1 :=
      moves_handleCheckedMsg rfl heard
    rcases ends with rfl | ⟨payload, rfl⟩
    · exact moves
    · exact moves.tail (.quiet (Quiet.emit rfl (by rintro _ _ ⟨⟩)))
  | timeout => exact (silent_handleTimeoutMsg (eventContext be c .timeout) c).moves
  | finalCommitted => exact moves_startNewRound c 0

def oldReply (be : Backend P) (c : Core P) (event : Event P) : Option (Preprepare P) :=
  match heardMessage be c event with
  | none => none
  | some (msg, src) =>
    if msg.code = msgPreprepare then
      msg.decodePreprepare.filter fun pp =>
        decide (checkMessage c msgPreprepare pp.view = some .oldMessage) && isOldBlock be pp src
    else none

theorem oldReply_eq_some {be : Backend P} {event : Event P} {pp : Preprepare P}
    (heard : Heard be c event msg src) (code : msg.code = msgPreprepare)
    (decoded : msg.decodePreprepare = some pp)
    (old : checkMessage c msgPreprepare pp.view = some .oldMessage)
    (known : isOldBlock be pp src = true) : oldReply be c event = some pp := by
  unfold oldReply
  rw [show heardMessage be c event = some (msg, src) from heard]
  simp only [if_pos code, decoded, Option.filter_some, old, known, decide_true, Bool.and_self,
    if_true]

end Moves

end Linkeye.Dbft.Moves
