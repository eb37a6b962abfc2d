import Linkeye.Dbft.Round

/-!
# The consensus core

The state machine of package `dbft/core`: one value of `Core` for the struct,
one function for each method, in the order the source calls them.  The backend
answers arbitrarily at every event, so it is an argument of each handler.
Everything a core hands to the outside is appended to `outputs`: messages,
commits, and the events it posts to its own queue.  Timers are not modelled,
an event may arrive at any time.  A nil dereference sets `crashed`.
-/

set_option autoImplicit false

namespace Linkeye.Dbft.Handlers

open Common.Types Common.Signature Rlp.Encode Rlp.Decode Dbft.Types Round Validator

inductive VerifyResult where
  | ok
  | futureBlock
  | failed

structure Backend (P : Type) where
  crypto : Crypto
  validators : P → ValidatorSet
  parentValidators : P → ValidatorSet
  getProposer : Nat → Address
  lastProposal : Option P × Address
  hasPropsal : Hash → Nat → Bool
  hasBadProposal : Hash → Bool
  verify : P → VerifyResult
  sign : Bytes → Option Bytes
  commit : P → List Bytes → Bool
  /-- The order in which a range over a Go map meets the messages. -/
  rangeOrder : List Message → List Message
  rangeOrder_perm : ∀ messages, (rangeOrder messages).Perm messages

/-- A broadcast message with the view, the lock and the sealed hash the core
had when it sent it. -/
structure Sent where
  msg : Message
  view : View
  lockedHash : Hash
  sealedHash : Option Hash
deriving DecidableEq

/-- A call of `backend.Commit` with the view and the validator set of the core. -/
structure Committed (P : Type) where
  view : View
  valSet : ValidatorSet
  proposal : P
  seals : List Bytes
deriving DecidableEq

inductive Output (P : Type) where
  | broadcast (sent : Sent)
  | gossip (payload : Bytes)
  | commit (committed : Committed P)
  | backlogEvent (src : Address) (msg : Message)
  | requestEvent (proposal : P)
deriving DecidableEq

/-- An exact priority queue, the largest priority first. -/
abbrev Prque (α : Type) := List (α × Int)

def Prque.push {α : Type} (value : α) (prio : Int) : Prque α → Prque α
  | [] => [(value, prio)]
  | entry :: rest =>
    if entry.2 < prio then (value, prio) :: entry :: rest
    else entry :: Prque.push value prio rest

structure Core (P : Type) where
  address : Address
  state : State
  valSet : ValidatorSet
  waitingForRoundChange : Bool
  backlogs : Std.ExtTreeMap Address (Prque Message)
  current : RoundState P
  roundChangeSet : RoundChangeSet
  pendingRequests : Prque P
  crashed : Bool
  outputs : List (Output P)

section Methods
variable {P : Type} [Proposal P]

def Core.emit (c : Core P) (output : Output P) : Core P :=
  { c with outputs := c.outputs ++ [output] }

def Core.crash (c : Core P) : Core P := { c with crashed := true }

def currentView (c : Core P) : View := c.current.view

def isProposer (c : Core P) : Bool := c.valSet.isProposer c.address

/-! ## Sending -/

/-- The hash whose seal `finalizeMessage` puts into a COMMIT. -/
def sealedHash (c : Core P) (code : UInt64) : Option Hash :=
  if code = msgCommit then c.current.proposal.map Proposal.hash else none

def committedSeal (be : Backend P) (c : Core P) (code : UInt64) : Option Bytes :=
  match sealedHash c code with
  | some hash => be.sign (prepareCommittedSeal hash)
  | none => some []

def finalizeMessage (be : Backend P) (c : Core P) (code : UInt64) (msg : Bytes) :
    Option Message := do
  let committedSeal ← committedSeal be c code
  let unsigned : Message := ⟨code, msg, c.address, [], committedSeal⟩
  let data ← unsigned.payloadNoSig
  let signature ← be.sign data
  let final : Message := { unsigned with signature := signature }
  let _ ← final.payload
  return final

def broadcast (be : Backend P) (c : Core P) (code : UInt64) (msg : Bytes) : Core P :=
  match finalizeMessage be c code msg with
  | none => c
  | some final =>
    c.emit (.broadcast ⟨final, currentView c, c.current.lockedHash, sealedHash c code⟩)

def sendPreprepare (be : Backend P) (c : Core P) (request : Option P) : Core P :=
  match request with
  | none => c.crash
  | some proposal =>
    if c.current.sequence = Proposal.number proposal ∧ isProposer c = true then
      match (Preprepare.encodeRLP ⟨currentView c, proposal⟩).bind encodeToBytes with
      | none => c
      | some preprepare => broadcast be c msgPreprepare preprepare
    else c

def broadcastSubject (be : Backend P) (c : Core P) (code : UInt64) (sub : Subject) : Core P :=
  match encodeToBytes sub.encodeRLP with
  | none => c
  | some encodedSubject => broadcast be c code encodedSubject

def sendPrepare (be : Backend P) (c : Core P) : Core P :=
  match c.current.subject with
  | none => c.crash
  | some sub => broadcastSubject be c msgPrepare sub

def broadcastCommit (be : Backend P) (c : Core P) (sub : Subject) : Core P :=
  broadcastSubject be c msgCommit sub

def sendCommit (be : Backend P) (c : Core P) : Core P :=
  match c.current.subject with
  | none => c.crash
  | some sub => broadcastCommit be c sub

def sendCommitForOldBlock (be : Backend P) (c : Core P) (view : View) (digest : Hash) : Core P :=
  broadcastCommit be c ⟨view, digest⟩

/-! ## Backlogs and pending requests -/

def checkMessage (c : Core P) (msgCode : UInt64) (view : View) : Option Err :=
  if msgCode = msgRoundChange then
    if (currentView c).sequence < view.sequence then some .futureMessage
    else if view.cmp (currentView c) = .lt then some .oldMessage
    else none
  else if view.cmp (currentView c) = .gt then some .futureMessage
  else if view.cmp (currentView c) = .lt then some .oldMessage
  else if c.waitingForRoundChange = true then some .futureMessage
  else if c.state = .acceptRequest then
    if msgPreprepare < msgCode then some .futureMessage else none
  else none

def msgPriority (msgCode : UInt64) : Nat :=
  if msgCode = msgPreprepare then 1
  else if msgCode = msgCommit then 2
  else if msgCode = msgPrepare then 3
  else 0

/-- The priority as an exact integer; the source rounds it to `float32`. -/
def toPriority (msgCode : UInt64) (view : View) : Int :=
  if msgCode = msgRoundChange then -(((view.sequence % 2 ^ 64) * 1000 % 2 ^ 64 : Nat) : Int)
  else
    -((((view.sequence % 2 ^ 64) * 1000 + (view.round % 2 ^ 64) * 10 + msgPriority msgCode) %
      2 ^ 64 : Nat) : Int)

/-- The view a stored message is ordered and checked by. -/
def backlogView (P : Type) [Proposal P] (msg : Message) : Option View :=
  if msg.code = msgPreprepare then (msg.decodePreprepare (P := P)).map Preprepare.view
  else msg.decodeSubject.map Subject.view

def storeBacklog (c : Core P) (msg : Message) (src : Address) : Core P :=
  if src = c.address then c
  else
    let backlog := c.backlogs[src]?.getD []
    let backlog := match backlogView P msg with
      | some view => Prque.push msg (toPriority msg.code view) backlog
      | none => backlog
    { c with backlogs := c.backlogs.insert src backlog }

def drainBacklog (c : Core P) : Prque Message → Prque Message × List Message
  | [] => ([], [])
  | (msg, prio) :: rest =>
    match backlogView P msg with
    | none => drainBacklog c rest
    | some view =>
      match checkMessage c msg.code view with
      | some .futureMessage => (Prque.push msg prio rest, [])
      | some _ => drainBacklog c rest
      | none => ((drainBacklog c rest).1, msg :: (drainBacklog c rest).2)

def processBacklog (c : Core P) : Core P :=
  { c with
    backlogs := c.backlogs.map fun _ backlog => (drainBacklog c backlog).1
    outputs := c.outputs ++ c.backlogs.toList.flatMap fun entry =>
      (drainBacklog c entry.2).2.map fun msg => .backlogEvent entry.1 msg }

def checkRequestMsg (c : Core P) (request : Option P) : Option Err :=
  match request with
  | none => some .invalidMessage
  | some proposal =>
    if Proposal.number proposal < c.current.sequence then some .oldMessage
    else if c.current.sequence < Proposal.number proposal then some .futureMessage
    else none

def storeRequestMsg (c : Core P) (proposal : P) : Core P :=
  { c with
    pendingRequests := Prque.push proposal (-(Int.bmod (Proposal.number proposal) (2 ^ 64)))
      c.pendingRequests }

def drainRequests (c : Core P) : Prque P → Prque P × List P
  | [] => ([], [])
  | (proposal, prio) :: rest =>
    match checkRequestMsg c (some proposal) with
    | some .futureMessage => (Prque.push proposal prio rest, [])
    | some _ => drainRequests c rest
    | none => ((drainRequests c rest).1, proposal :: (drainRequests c rest).2)

def processPendingRequests (c : Core P) : Core P :=
  { c with
    pendingRequests := (drainRequests c c.pendingRequests).1
    outputs := c.outputs ++ (drainRequests c c.pendingRequests).2.map .requestEvent }

def setState (c : Core P) (state : State) : Core P :=
  let c := { c with state := state }
  let c := if state = .acceptRequest then processPendingRequests c else c
  processBacklog c

/-! ## Rounds -/

def updateRoundState (be : Backend P) (c : Core P) (view : View) (roundChange : Bool) : Core P :=
  let current :=
    if roundChange = true then
      if c.current.isHashLocked be.hasBadProposal = true then
        newRoundState view c.valSet c.current.lockedHash c.current.preprepare
          c.current.pendingRequest
      else newRoundState view c.valSet (FixedBytes.zero 32) none c.current.pendingRequest
    else newRoundState view c.valSet (FixedBytes.zero 32) none none
  { c with current := current }

def catchUpRound (be : Backend P) (c : Core P) (view : View) : Core P :=
  let c := updateRoundState be { c with waitingForRoundChange := true } view true
  { c with roundChangeSet := c.roundChangeSet.clear view.round }

def sendRoundChange (be : Backend P) (c : Core P) (round : Nat) : Core P :=
  if round ≤ (currentView c).round then c
  else
    let c := catchUpRound be c ⟨round, (currentView c).sequence⟩
    broadcastSubject be c msgRoundChange ⟨currentView c, FixedBytes.zero 32⟩

def sendNextRoundChange (be : Backend P) (c : Core P) : Core P :=
  sendRoundChange be c ((currentView c).round + 1)

def enterNewRound (be : Backend P) (c : Core P) (lastProposer : Address) (newView : View)
    (roundChange : Bool) : Core P :=
  let c := { c with roundChangeSet := newRoundChangeSet c.valSet }
  let c := updateRoundState be c newView roundChange
  let c := { c with
    valSet := c.valSet.calcProposer lastProposer newView.round
    waitingForRoundChange := false }
  let c := setState c .acceptRequest
  if roundChange = true ∧ isProposer c = true then
    if c.current.isHashLocked be.hasBadProposal = true then
      sendPreprepare be c c.current.proposal
    else
      match c.current.pendingRequest with
      | some request => sendPreprepare be c (some request)
      | none => c
  else c

/-- `big.NewInt(Sequence().Int64()-1)`. -/
def previousSequence (sequence : Nat) : Int :=
  Int.bmod (Int.bmod sequence (2 ^ 64) - 1) (2 ^ 64)

def startNewRound (be : Backend P) (c : Core P) (round : Nat) : Core P :=
  match be.lastProposal.1 with
  | none => c.crash
  | some lastProposal =>
    if c.current.sequence ≤ Proposal.number lastProposal then
      enterNewRound be { c with valSet := be.validators lastProposal } be.lastProposal.2
        ⟨0, Proposal.number lastProposal + 1⟩ false
    else if (Proposal.number lastProposal : Int) = previousSequence c.current.sequence then
      if round = 0 then c
      else if round < c.current.round then c
      else enterNewRound be c be.lastProposal.2 ⟨round, c.current.sequence⟩ true
    else c

/-- `copy` into a new slice of `BFTExtraSeal` bytes. -/
def copySeal (v : Message) : Bytes :=
  v.committedSeal.take 65 ++ List.replicate (65 - v.committedSeal.length) 0

def commit (be : Backend P) (c : Core P) : Core P :=
  let c := setState c .committed
  match c.current.proposal with
  | none => c
  | some proposal =>
    let committedSeals := (be.rangeOrder c.current.commits.values).map copySeal
    let c := c.emit (.commit ⟨currentView c, c.valSet, proposal, committedSeals⟩)
    if be.commit proposal committedSeals = true then c
    else sendNextRoundChange be { c with current := c.current.unlockHash }

/-! ## Message handlers -/

/-- The test of `handlePreprepare` on an old PRE-PREPARE: its sender is the
proposer for it and the block is known. -/
def isOldBlock (be : Backend P) (preprepare : Preprepare P) (src : Address) : Bool :=
  let previous := (Proposal.number preprepare.proposal % 2 ^ 64 + (2 ^ 64 - 1)) % 2 ^ 64
  let valSet := ((be.parentValidators preprepare.proposal).copy be.crypto.keccak256).calcProposer
    (be.getProposer previous) preprepare.view.round
  valSet.isProposer src &&
    be.hasPropsal (Proposal.hash preprepare.proposal) (Proposal.number preprepare.proposal)

def acceptPreprepare (c : Core P) (preprepare : Preprepare P) : Core P :=
  { c with current := c.current.setPreprepare preprepare }

def handlePreprepare (be : Backend P) (c : Core P) (msg : Message) (src : Address) :
    Core P × Option Err :=
  match (msg.decodePreprepare : Option (Preprepare P)) with
  | none => (c, some .failedDecodePreprepare)
  | some preprepare =>
    match checkMessage c msgPreprepare preprepare.view with
    | some err =>
      if err = .oldMessage ∧ isOldBlock be preprepare src = true then
        (sendCommitForOldBlock be c preprepare.view (Proposal.hash preprepare.proposal), none)
      else (c, some err)
    | none =>
      if c.valSet.isProposer src = true then
        match be.verify preprepare.proposal with
        | .futureBlock => (c.emit (.backlogEvent src msg), some .futureBlock)
        | .failed => (sendNextRoundChange be c, some .verify)
        | .ok =>
          if c.state = .acceptRequest then
            if c.current.isHashLocked be.hasBadProposal = true then
              if Proposal.hash preprepare.proposal = c.current.lockedHash then
                (sendCommit be (setState (acceptPreprepare c preprepare) .prepared), none)
              else (sendNextRoundChange be c, none)
            else
              (sendPrepare be (setState (acceptPreprepare c preprepare) .preprepared), none)
          else (c, none)
      else (c, some .notFromProposer)

/-- `verifyPrepare` and `verifyCommit`. -/
def verifySubject (c : Core P) (sub : Subject) : Option Err :=
  if some sub = c.current.subject then none else some .inconsistentSubject

/-- An error of `Add` is logged and dropped. -/
def acceptPrepare (c : Core P) (msg : Message) : Core P :=
  match c.current.prepares.add msg with
  | .error _ => c
  | .ok prepares => { c with current := { c.current with prepares := prepares } }

def acceptCommit (c : Core P) (msg : Message) : Core P :=
  match c.current.commits.add msg with
  | .error _ => c
  | .ok commits => { c with current := { c.current with commits := commits } }

def handlePrepare (be : Backend P) (c : Core P) (msg : Message) : Core P × Option Err :=
  match msg.decodeSubject with
  | none => (c, some .failedDecodePrepare)
  | some prepare =>
    match checkMessage c msgPrepare prepare.view with
    | some err => (c, some err)
    | none =>
      match verifySubject c prepare with
      | some err => (c, some err)
      | none =>
        let c := acceptPrepare c msg
        if ((c.current.isHashLocked be.hasBadProposal = true ∧
              prepare.digest = c.current.lockedHash) ∨
            c.valSet.exceedsTwoF c.current.getPrepareOrCommitSize = true) ∧
            c.state.cmp .prepared = .lt then
          (sendCommit be (setState { c with current := c.current.lockHash } .prepared), none)
        else (c, none)

def handleCommit (be : Backend P) (c : Core P) (msg : Message) : Core P × Option Err :=
  match msg.decodeSubject with
  | none => (c, some .failedDecodeCommit)
  | some commitSubject =>
    match checkMessage c msgCommit commitSubject.view with
    | some err => (c, some err)
    | none =>
      match verifySubject c commitSubject with
      | some err => (c, some err)
      | none =>
        let c := acceptCommit c msg
        if c.valSet.exceedsTwoF c.current.commits.size = true ∧
            c.state.cmp .committed = .lt then
          (commit be { c with current := c.current.lockHash }, none)
        else (c, none)

def handleRoundChange (be : Backend P) (c : Core P) (msg : Message) : Core P × Option Err :=
  match msg.decodeSubject with
  | none => (c, some .invalidMessage)
  | some rc =>
    match checkMessage c msgRoundChange rc.view with
    | some err => (c, some err)
    | none =>
      let cv := currentView c
      let added := c.roundChangeSet.add rc.view.round msg
      let c := { c with roundChangeSet := added.1 }
      match added.2 with
      | .error err => (c, some err)
      | .ok num =>
        if c.waitingForRoundChange = true ∧ (num : Int) = c.valSet.f + 1 then
          if cv.round < rc.view.round then (sendRoundChange be c rc.view.round, none)
          else (c, none)
        else if (num : Int) = 2 * c.valSet.f + 1 ∧
            (c.waitingForRoundChange = true ∨ cv.round < rc.view.round) then
          (startNewRound be c rc.view.round, none)
        else if cv.round < rc.view.round then (c, some .ignored)
        else (c, none)

def dispatch (be : Backend P) (c : Core P) (msg : Message) (src : Address) :
    Core P × Option Err :=
  if msg.code = msgPreprepare then handlePreprepare be c msg src
  else if msg.code = msgPrepare then handlePrepare be c msg
  else if msg.code = msgCommit then handleCommit be c msg
  else if msg.code = msgRoundChange then handleRoundChange be c msg
  else (c, some .invalidMessage)

def handleCheckedMsg (be : Backend P) (c : Core P) (msg : Message) (src : Address) :
    Core P × Option Err :=
  match dispatch be c msg src with
  | (c, some .futureMessage) => (storeBacklog c msg src, some .futureMessage)
  | result => result

def checkPayload (crypto : Crypto) (valSet : ValidatorSet) (payload : Bytes) :
    Except Err (Message × Address) :=
  match fromPayload crypto valSet payload with
  | .error err => .error err
  | .ok msg =>
    match valSet.getByAddress msg.address with
    | none => .error .unauthorizedAddress
    | some (_, src) => .ok (msg, src)

def handleMsg (be : Backend P) (c : Core P) (payload : Bytes) : Core P × Option Err :=
  match checkPayload be.crypto c.valSet payload with
  | .error err => (c, some err)
  | .ok (msg, src) => handleCheckedMsg be c msg src

def handleRequest (be : Backend P) (c : Core P) (request : Option P) : Core P × Option Err :=
  match checkRequestMsg c request with
  | some err => (c, some err)
  | none =>
    let c := { c with current := { c.current with pendingRequest := request } }
    if c.state = .acceptRequest then (sendPreprepare be c request, none) else (c, none)

def handleTimeoutMsg (be : Backend P) (c : Core P) : Core P :=
  let catchUp := if c.waitingForRoundChange = true then none
    else (c.roundChangeSet.maxRound (c.valSet.f + 1)).filter fun r => (c.current.round : Int) < r
  match catchUp with
  | some maxRound => sendRoundChange be c maxRound.toNat
  | none =>
    match be.lastProposal.1 with
    | some lastProposal =>
      if c.current.sequence ≤ Proposal.number lastProposal then startNewRound be c 0
      else sendNextRoundChange be c
    | none => sendNextRoundChange be c

def handleFinalCommitted (be : Backend P) (c : Core P) : Core P := startNewRound be c 0

/-! ## Events -/

inductive Event (P : Type) where
  | request (proposal : Option P)
  | message (payload : Bytes)
  | backlog (src : Address) (msg : Message)
  | timeout
  | finalCommitted

def handleEvent (be : Backend P) (c : Core P) (event : Event P) : Core P :=
  if c.crashed = true then c
  else match event with
  | .request proposal =>
    match handleRequest be c proposal, proposal with
    | (c, some .futureMessage), some proposal => storeRequestMsg c proposal
    | (c, _), _ => c
  | .message payload =>
    match handleMsg be c payload with
    | (c, none) => c.emit (.gossip payload)
    | (c, some _) => c
  | .backlog src msg =>
    match handleCheckedMsg be c msg src with
    | (c, none) =>
      match msg.payload with
      | some payload => c.emit (.gossip payload)
      | none => c
    | (c, some _) => c
  | .timeout => handleTimeoutMsg be c
  | .finalCommitted => handleFinalCommitted be c

/-- `New`; the round state is set by `Start` before anything reads it. -/
def newCore (address : Address) (valSet : ValidatorSet) : Core P where
  address := address
  state := .acceptRequest
  valSet := valSet
  waitingForRoundChange := false
  backlogs := ∅
  current := newRoundState ⟨0, 0⟩ valSet (FixedBytes.zero 32) none none
  roundChangeSet := newRoundChangeSet valSet
  pendingRequests := []
  crashed := false
  outputs := []

def start (be : Backend P) (address : Address) : Option (Core P) :=
  be.lastProposal.1.map fun lastProposal =>
    enterNewRound be (newCore address (be.validators lastProposal)) be.lastProposal.2
      ⟨0, Proposal.number lastProposal + 1⟩ false

end Methods

/-! ## A small chain for concrete runs -/

structure NumberedBlock where
  number : Nat
  tag : UInt8
deriving DecidableEq

instance : Proposal NumberedBlock where
  number := NumberedBlock.number
  hash := fun b => bytesToHash (bigBytes b.number ++ [b.tag, 1])
  encodeRLP := fun b => some (.list [writeUint b.number, .bytes [b.tag]])
  decodeRLP
    | .list [number, .bytes [tag]] => (decodeBigInt number).map fun n => ⟨n, tag⟩
    | _ => none

def sampleAddress (i : UInt8) : Address := bytesToAddress [i]

def sampleSet : ValidatorSet :=
  newSet plainCrypto.keccak256 ([1, 2, 3, 4].map sampleAddress) .roundRobin

/-- The backend of `self` on a chain of blocks with their proposers, the head
first.  The genesis block has no parent and so no parent validators. -/
def chainBackend (self : Address) (head : NumberedBlock × Address)
    (older : List (NumberedBlock × Address)) : Backend NumberedBlock where
  crypto := plainCrypto
  validators := fun _ => sampleSet
  parentValidators := fun b =>
    if b.number = 0 then newSet plainCrypto.keccak256 [] .roundRobin else sampleSet
  getProposer := fun n =>
    (((head :: older).find? fun entry => decide (entry.1.number = n)).map Prod.snd).getD zeroAddress
  lastProposal := (some head.1, head.2)
  hasPropsal := fun hash n =>
    (head :: older).any fun entry =>
      decide (Proposal.hash entry.1 = hash ∧ entry.1.number = n % 2 ^ 64)
  hasBadProposal := fun _ => false
  verify := fun _ => .ok
  sign := fun _ => some (plainSig self)
  commit := fun _ _ => true
  rangeOrder := id
  rangeOrder_perm := fun _ => .refl _

def samplePayload (signer sender : UInt8) (code : UInt64) (content : Item)
    (committedSeal : Bytes) : Bytes :=
  encode (Message.encodeRLP ⟨code, encode content, sampleAddress sender,
    plainSig (sampleAddress signer), committedSeal⟩)

end Linkeye.Dbft.Handlers
