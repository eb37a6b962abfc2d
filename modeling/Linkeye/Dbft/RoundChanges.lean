import Linkeye.Dbft.Authenticity
import Linkeye.Dbft.Invariants

/-!
# Round changes

How the view of a core, its waiting flag and its round change set move.  A turn is
what one move does to them; only a ROUND CHANGE message adds to the set.  From this
follow that views never go back, what stands behind a call of `startNewRound`, and
when a complete certificate is acted on.
-/

set_option autoImplicit false

namespace Linkeye.Dbft.RoundChanges

open Std Common.Types Lib.Runs Dbft.Types Round Validator Handlers Moves
open Authenticity CoreRuns Invariants

section Turns
variable {P : Type} {c d : Core P} {Good : Message → Prop} {msg : Message} {be : Backend P}
  {address : Address} {step : Backend P × Event P}

/-- What a move that records no ROUND CHANGE does to the view, the waiting flag, the
validators and the round change set. -/
inductive Turn (c d : Core P) : Prop where
  | still (view : currentView d = currentView c)
      (waiting : d.waitingForRoundChange = c.waitingForRoundChange)
      (validators : d.valSet.validators = c.valSet.validators)
      (set : d.roundChangeSet = c.roundChangeSet)
  | newSequence (advance : c.current.sequence < d.current.sequence)
      (waiting : d.waitingForRoundChange = false) (empty : d.roundChangeSet.roundChanges = ∅)
      (listed : d.roundChangeSet.validatorSet.validators = d.valSet.validators)
  | newRound (sequence : d.current.sequence = c.current.sequence)
      (advance : c.current.round ≤ d.current.round)
      (waiting : d.waitingForRoundChange = false) (empty : d.roundChangeSet.roundChanges = ∅)
      (listed : d.roundChangeSet.validatorSet.validators = d.valSet.validators)
  | catchUp (sequence : d.current.sequence = c.current.sequence)
      (advance : c.current.round < d.current.round)
      (waiting : d.waitingForRoundChange = true)
      (validators : d.valSet.validators = c.valSet.validators)
      (set : d.roundChangeSet = c.roundChangeSet.clear d.current.round)

theorem Turn.of_same (view : currentView d = currentView c)
    (waiting : d.waitingForRoundChange = c.waitingForRoundChange) (valSet : d.valSet = c.valSet)
    (set : d.roundChangeSet = c.roundChangeSet) : Turn c d :=
  .still view waiting (by rw [valSet]) set

theorem turn_of_quiet {heard : Message → Address → Prop} (quiet : Quiet heard c d) : Turn c d := by
  obtain ⟨request, current⟩ := quiet.current
  refine .of_same ?_ quiet.waiting quiet.valSet quiet.roundChangeSet
  rw [currentView, current]
  rfl

abbrev TurnSeq : Core P → Core P → Prop := Relation.ReflTransGen Turn

/-! ## Views -/

/-- The lexicographic order of views. -/
def Reaches (v w : View) : Prop :=
  v.sequence < w.sequence ∨ v.sequence = w.sequence ∧ v.round ≤ w.round

theorem Reaches.trans {u v w : View} (first : Reaches u v) (second : Reaches v w) :
    Reaches u w := by
  unfold Reaches at *
  omega

theorem reaches_of_eq {v w : View} (same : w = v) : Reaches v w :=
  Or.inr (by rw [same]; exact ⟨rfl, le_rfl⟩)

theorem Turn.reaches (turn : Turn c d) :
    Reaches (currentView c) (currentView d) := by
  cases turn with
  | still view => exact reaches_of_eq view
  | newSequence advance => exact Or.inl advance
  | newRound sequence advance => exact Or.inr ⟨sequence.symm, advance⟩
  | catchUp sequence advance => exact Or.inr ⟨sequence.symm, advance.le⟩

theorem reaches_of_turns (turns : TurnSeq c d) :
    Reaches (currentView c) (currentView d) :=
  kept_by_moves (fun d => Reaches (currentView c) (currentView d))
    (fun _ _ turn before => before.trans turn.reaches) turns (reaches_of_eq rfl)

/-! ## What the round change set holds -/

theorem add_cases (rcs : RoundChangeSet) (r : Nat) (msg : Message) :
    ∃ set, (rcs.add r msg).1 = ⟨rcs.validatorSet, rcs.roundChanges.insert (r % 2 ^ 64) set⟩ ∧
      ((∃ err, (rcs.add r msg).2 = .error err) ∧
          set = rcs.roundChanges[r % 2 ^ 64]?.getD (newMessageSet rcs.validatorSet) ∨
        (rcs.add r msg).2 = .ok set.size ∧
          (rcs.roundChanges[r % 2 ^ 64]?.getD (newMessageSet rcs.validatorSet)).add msg =
            .ok set) := by
  unfold RoundChangeSet.add
  dsimp only
  split
  · rename_i err refused
    exact ⟨_, rfl, Or.inl ⟨⟨err, rfl⟩, rfl⟩⟩
  · rename_i added accepted
    exact ⟨added, rfl, Or.inr ⟨rfl, accepted⟩⟩

/-- A stored ROUND CHANGE: its sequence is the current one and its key is the round
cut to 64 bits. -/
structure Vote (Good : Message → Prop) (c : Core P) (key : Nat) (m : Message) : Prop where
  code : m.code = msgRoundChange
  subject : ∃ sub, m.decodeSubject = some sub ∧ sub.view.sequence = c.current.sequence ∧
    sub.view.round % 2 ^ 64 = key
  good : Good m

structure Tallied (Good : Message → Prop) (c : Core P) : Prop where
  listed : c.roundChangeSet.validatorSet.validators = c.valSet.validators
  members : ∀ (key : Nat) (set : MessageSet), c.roundChangeSet.roundChanges[key]? = some set →
    set.valSet = c.roundChangeSet.validatorSet
  votes : ∀ (key : Nat) (set : MessageSet) (addr : Address) (m : Message),
    c.roundChangeSet.roundChanges[key]? = some set → set.get addr = some m → Vote Good c key m

theorem Vote.congr {key : Nat} {m : Message} (vote : Vote Good c key m)
    (sequence : d.current.sequence = c.current.sequence) :
    Vote Good d key m where
  __ := vote
  subject := by
    obtain ⟨sub, decoded, same, cut⟩ := vote.subject
    exact ⟨sub, decoded, same.trans sequence.symm, cut⟩

theorem Tallied.of_empty (empty : c.roundChangeSet.roundChanges = ∅)
    (listed : c.roundChangeSet.validatorSet.validators = c.valSet.validators) :
    Tallied Good c where
  listed := listed
  members := by
    intro key set found
    rw [empty, ExtTreeMap.getElem?_empty] at found
    cases found
  votes := by
    intro key set addr m found
    rw [empty, ExtTreeMap.getElem?_empty] at found
    cases found

theorem Tallied.mono {Better : Message → Prop} (tallied : Tallied Good c)
    (weaker : ∀ m, Good m → Better m) : Tallied Better c where
  __ := tallied
  votes := by
    intro key set addr m found stored
    obtain ⟨code, subject, good⟩ := tallied.votes key set addr m found stored
    exact ⟨code, subject, weaker m good⟩

theorem Tallied.turn (tallied : Tallied Good c) (turn : Turn c d) : Tallied Good d := by
  cases turn with
  | still view waiting validators set =>
    refine ⟨?_, ?_, ?_⟩
    · rw [set, validators]
      exact tallied.listed
    · rw [set]
      exact tallied.members
    · intro key held addr m found stored
      rw [set] at found
      exact (tallied.votes key held addr m found stored).congr (congrArg View.sequence view)
  | newSequence _ _ empty listed | newRound _ _ _ empty listed => exact .of_empty empty listed
  | catchUp sequence advance waiting validators set =>
    refine ⟨?_, ?_, ?_⟩
    · rw [set, validators]
      exact tallied.listed
    · intro key held found
      rw [set] at found ⊢
      exact tallied.members key held (roundChangeSet_clear_recorded found)
    · intro key held addr m found stored
      rw [set] at found
      exact (tallied.votes key held addr m (roundChangeSet_clear_recorded found) stored).congr
        sequence

theorem Tallied.turns (turns : TurnSeq c d) (tallied : Tallied Good c) : Tallied Good d :=
  kept_by_moves (Tallied Good) (fun _ _ turn before => before.turn turn) turns tallied

/-- A ROUND CHANGE that passes `checkMessage` is for the current sequence and not for
an earlier round. -/
theorem checkMessage_roundChange {view : View} (passed : checkMessage c msgRoundChange view = none) :
    view.sequence = c.current.sequence ∧ c.current.round ≤ view.round := by
  rw [checkMessage, if_pos rfl] at passed
  split at passed
  · cases passed
  · rename_i notLater
    split at passed
    · cases passed
    · rename_i notEarlier
      rw [View.cmp_eq_lt_iff] at notEarlier
      simp only [currentView, RoundState.view] at notLater notEarlier
      omega

theorem Tallied.found (tallied : Tallied Good c) (key : Nat) :
    let set := c.roundChangeSet.roundChanges[key]?.getD
      (newMessageSet c.roundChangeSet.validatorSet)
    set.valSet = c.roundChangeSet.validatorSet ∧
      ∀ addr m, set.get addr = some m → Vote Good c key m := by
  cases present : c.roundChangeSet.roundChanges[key]? with
  | none =>
    refine ⟨rfl, ?_⟩
    intro addr m stored
    rw [Option.getD_none, MessageSet.get_newMessageSet] at stored
    cases stored
  | some set =>
    exact ⟨tallied.members key set present, fun addr m => tallied.votes key set addr m present⟩

def recorded (c : Core P) (round : Nat) (msg : Message) : Core P :=
  { c with roundChangeSet := (c.roundChangeSet.add round msg).1 }

theorem Tallied.recorded {rc : Subject} (tallied : Tallied Good c)
    (code : msg.code = msgRoundChange) (decoded : msg.decodeSubject = some rc)
    (passed : checkMessage c msgRoundChange rc.view = none) (good : Good msg) :
    Tallied Good (recorded c rc.view.round msg) := by
  obtain ⟨sequence, _⟩ := checkMessage_roundChange passed
  obtain ⟨sameSet, before⟩ := tallied.found (rc.view.round % 2 ^ 64)
  obtain ⟨added, result, outcome⟩ := add_cases c.roundChangeSet rc.view.round msg
  have entry : added.valSet = c.roundChangeSet.validatorSet ∧
      ∀ addr m, added.get addr = some m → Vote Good c (rc.view.round % 2 ^ 64) m := by
    rcases outcome with ⟨_, rfl⟩ | ⟨_, accepted⟩
    · exact ⟨sameSet, before⟩
    · obtain ⟨kept, stored⟩ := MessageSet.add_eq_ok accepted
      refine ⟨kept.trans sameSet, ?_⟩
      intro addr m present
      rcases stored addr m present with ⟨rfl, _⟩ | old
      · exact ⟨code, ⟨rc, decoded, sequence, rfl⟩, good⟩
      · exact before addr m old
  refine ⟨?_, ?_, ?_⟩
  · rw [RoundChanges.recorded, result]
    exact tallied.listed
  · intro key set found
    rw [RoundChanges.recorded, result] at found ⊢
    rw [ExtTreeMap.getElem?_insert] at found
    split at found
    · cases found
      exact entry.1
    · exact tallied.members key set found
  · intro key set addr m found stored
    rw [RoundChanges.recorded, result] at found
    rw [ExtTreeMap.getElem?_insert] at found
    split at found
    · rename_i same
      cases found
      rw [← LawfulEqOrd.eq_of_compare same]
      exact (entry.2 addr m stored).congr rfl
    · exact (tallied.votes key set addr m found stored).congr rfl

/-! ## The handlers as turns -/

variable [Proposal P]

theorem turn_of_move {ctx : Context P} (move : Move ctx c d)
    (silent : ∀ m src, ctx.heard m src → m.code ≠ msgRoundChange) : Turn c d := by
  cases move with
  | quiet quiet => exact turn_of_quiet quiet
  | send | acceptPreprepare | recordPrepare | recordCommit | commit | unlock =>
    exact .of_same rfl rfl rfl rfl
  | newSequence last advance =>
    exact .newSequence (Nat.lt_succ_of_le advance) rfl rfl
      (ValidatorSet.calcProposer_validators _ _ _).symm
  | newRound round advance =>
    obtain ⟨sameRound, sameSequence⟩ := carried_view ctx.be c ⟨round, c.current.sequence⟩
    exact .newRound sameSequence (advance.trans sameRound.ge) rfl rfl
      (ValidatorSet.calcProposer_validators _ _ _).symm
  | catchUp round advance =>
    obtain ⟨sameRound, sameSequence⟩ := carried_view ctx.be c ⟨round, c.current.sequence⟩
    refine .catchUp sameSequence (advance.trans_le sameRound.ge) rfl rfl ?_
    rw [sameRound]
  | recordRoundChange m src sub heard code => exact absurd code (silent m src heard)
  | lock => exact .of_same (lockHash_fields c.current).2.2 rfl rfl rfl

theorem turns_of_moves {ctx : Context P} (moves : MoveSeq ctx c d)
    (silent : ∀ m src, ctx.heard m src → m.code ≠ msgRoundChange) : TurnSeq c d := by
  induction moves with
  | refl => exact .refl
  | tail _ move ih => exact ih.tail (turn_of_move move silent)

def unheard (be : Backend P) (c : Core P) : Context P := ⟨be, c, fun _ _ => False⟩

theorem turns_sendRoundChange (be : Backend P) (c : Core P) (round : Nat) :
    TurnSeq c (sendRoundChange be c round) := by
  have moves : MoveSeq (unheard be c) c (sendRoundChange be c round) :=
    (silent_sendRoundChange c round).moves
  exact turns_of_moves moves fun _ _ none => absurd none id

theorem turns_startNewRound (be : Backend P) (c : Core P) (round : Nat) :
    TurnSeq c (startNewRound be c round) := by
  have moves : MoveSeq (unheard be c) c (startNewRound be c round) := moves_startNewRound c round
  exact turns_of_moves moves fun _ _ none => absurd none id

/-- The round with which `handleRoundChange` calls `startNewRound`, if it does. -/
def newRoundCall (c : Core P) (msg : Message) : Option Nat :=
  match msg.decodeSubject with
  | none => none
  | some rc =>
    match checkMessage c msgRoundChange rc.view, (c.roundChangeSet.add rc.view.round msg).2 with
    | none, .ok num =>
      if ¬ (c.waitingForRoundChange = true ∧ (num : Int) = c.valSet.f + 1) ∧
          (num : Int) = 2 * c.valSet.f + 1 ∧
          (c.waitingForRoundChange = true ∨ (currentView c).round < rc.view.round) then
        some rc.view.round
      else none
    | _, _ => none

theorem handleRoundChange_cases (be : Backend P) (c : Core P) (msg : Message) :
    newRoundCall c msg = none ∧ (handleRoundChange be c msg).1 = c ∨
      ∃ rc, msg.decodeSubject = some rc ∧ checkMessage c msgRoundChange rc.view = none ∧
        (newRoundCall c msg = none ∧
            ((handleRoundChange be c msg).1 = recorded c rc.view.round msg ∨
              (handleRoundChange be c msg).1 =
                sendRoundChange be (recorded c rc.view.round msg) rc.view.round) ∨
          newRoundCall c msg = some rc.view.round ∧
            handleRoundChange be c msg =
              (startNewRound be (recorded c rc.view.round msg) rc.view.round, none)) := by
  unfold handleRoundChange newRoundCall
  cases decoded : msg.decodeSubject with
  | none => exact Or.inl ⟨rfl, rfl⟩
  | some rc =>
    cases check : checkMessage c msgRoundChange rc.view with
    | some err =>
      dsimp only
      rw [check]
      exact Or.inl ⟨rfl, rfl⟩
    | none =>
      right
      refine ⟨rc, rfl, check, ?_⟩
      dsimp only
      rw [check]
      cases added : (c.roundChangeSet.add rc.view.round msg).2 with
      | error err => exact Or.inl ⟨rfl, Or.inl rfl⟩
      | ok num =>
        dsimp only
        by_cases weak : c.waitingForRoundChange = true ∧ (num : Int) = c.valSet.f + 1
        · rw [if_pos weak, if_neg fun both => both.1 weak]
          refine Or.inl ⟨rfl, ?_⟩
          split
          · exact Or.inr rfl
          · exact Or.inl rfl
        · rw [if_neg weak]
          by_cases full : (num : Int) = 2 * c.valSet.f + 1 ∧
              (c.waitingForRoundChange = true ∨ (currentView c).round < rc.view.round)
          · rw [if_pos full, if_pos ⟨weak, full⟩]
            exact Or.inr ⟨rfl, rfl⟩
          · rw [if_neg full, if_neg fun both => full both.2]
            refine Or.inl ⟨rfl, Or.inl ?_⟩
            split <;> rfl

theorem handleEvent_turns (be : Backend P) (c : Core P) (event : Event P) :
    TurnSeq c (handleEvent be c event) ∨
      ∃ msg src, Heard be c event msg src ∧ msg.code = msgRoundChange ∧
        TurnSeq (handleRoundChange be c msg).1 (handleEvent be c event) := by
  by_cases silent : ∀ m src, Heard be c event m src → m.code ≠ msgRoundChange
  · exact Or.inl (turns_of_moves (handleEvent_moves be c event) silent)
  · push Not at silent
    obtain ⟨msg, src, heard, code⟩ := silent
    have handled := handleEvent_handled be c event
    generalize handleEvent be c event = d at handled ⊢
    cases handled with
    | ignored => exact Or.inl .refl
    | request | timeout | finalCommitted => cases heard
    | message m source running brought ends =>
      obtain ⟨rfl, rfl⟩ := Prod.mk.inj (Option.some.inj (heard.symm.trans brought))
      refine Or.inr ⟨msg, src, heard, code, ?_⟩
      have checked := turn_of_quiet (quiet_handleCheckedMsg be c heard)
      rw [dispatch_roundChange be c src code] at checked
      rcases ends with rfl | ⟨payload, rfl⟩
      · exact .single checked
      · exact .tail (.single checked) (.of_same rfl rfl rfl rfl)

theorem handleRoundChange_reaches (be : Backend P) (c : Core P) (msg : Message) :
    Reaches (currentView c) (currentView (handleRoundChange be c msg).1) := by
  rcases handleRoundChange_cases be c msg with ⟨_, same⟩ | ⟨rc, _, _, outcome⟩
  · exact reaches_of_eq (by rw [same])
  · have kept : Reaches (currentView c) (currentView (recorded c rc.view.round msg)) :=
      reaches_of_eq rfl
    rcases outcome with ⟨_, same | sent⟩ | ⟨_, started⟩
    · rw [same]
      exact kept
    · rw [sent]
      exact kept.trans (reaches_of_turns (turns_sendRoundChange be _ _))
    · rw [started]
      exact kept.trans (reaches_of_turns (turns_startNewRound be _ _))

theorem handleEvent_reaches (be : Backend P) (c : Core P) (event : Event P) :
    Reaches (currentView c) (currentView (handleEvent be c event)) := by
  rcases handleEvent_turns be c event with turns | ⟨msg, src, _, _, turns⟩
  · exact reaches_of_turns turns
  · exact (handleRoundChange_reaches be c msg).trans (reaches_of_turns turns)

/-- Whatever a core is handed and whatever its backend answers, its view never goes
back. -/
theorem view_never_decreases (c : Core P) (steps : List (Backend P × Event P)) :
    (currentView (steps.foldl (fun core step => handleEvent step.1 core step.2) c)).cmp
      (currentView c) ≠ .lt := by
  have reached : Reaches (currentView c)
      (currentView (steps.foldl (fun core step => handleEvent step.1 core step.2) c)) := by
    induction steps generalizing c with
    | nil => exact reaches_of_eq rfl
    | cons step rest ih =>
      rw [List.foldl_cons]
      exact (handleEvent_reaches step.1 c step.2).trans (ih _)
  rw [Ne, View.cmp_eq_lt_iff]
  unfold Reaches at reached
  omega

theorem Tallied.handleRoundChange (be : Backend P) (tallied : Tallied Good c)
    (code : msg.code = msgRoundChange) (good : Good msg) :
    Tallied Good (handleRoundChange be c msg).1 := by
  rcases handleRoundChange_cases be c msg with ⟨_, same⟩ | ⟨rc, decoded, passed, outcome⟩
  · rw [same]
    exact tallied
  · have kept := tallied.recorded code decoded passed good
    rcases outcome with ⟨_, same | sent⟩ | ⟨_, started⟩
    · rw [same]
      exact kept
    · rw [sent]
      exact Tallied.turns (turns_sendRoundChange be _ _) kept
    · rw [started]
      exact Tallied.turns (turns_startNewRound be _ _) kept

theorem Tallied.handleEvent {event : Event P} (tallied : Tallied Good c)
    (good : ∀ msg src, Heard be c event msg src → Good msg) :
    Tallied Good (handleEvent be c event) := by
  rcases handleEvent_turns be c event with turns | ⟨msg, src, heard, code, turns⟩
  · exact Tallied.turns turns tallied
  · exact Tallied.turns turns (tallied.handleRoundChange be code (good msg src heard))

theorem Tallied.start (started : start be address = some c) : Tallied Good c := by
  obtain ⟨last, quiet⟩ := start_eq_some started
  refine Tallied.of_empty ?_ ?_
  · rw [quiet.roundChangeSet]
    rfl
  · rw [quiet.roundChangeSet, quiet.valSet]
    exact (ValidatorSet.calcProposer_validators _ _ _).symm

end Turns

/-! ## The certificate behind a new round -/

section
variable {P : Type} [Proposal P]

/-- A core with the messages that passed the checks of `handleMsg`, each with the
address its signature recovers to. -/
structure Trace (P : Type) where
  core : Core P
  received : List (Address × Message)

variable {s : Trace P} {step : Backend P × Event P} {be : Backend P} {address : Address}
  {c : Core P} {msg : Message}

def receipt (be : Backend P) (c : Core P) : Event P → List (Address × Message)
  | .message payload =>
    match checkPayload be.crypto c.valSet payload with
    | .error _ => []
    | .ok (msg, _) => ((signerOf be.crypto msg).map fun signer => (signer, msg)).toList
  | _ => []

def tracedSystem (P : Type) [Proposal P] (address : Address) :
    System (Trace P) (Backend P × Event P) where
  init := fun s => (∃ be, start be address = some s.core) ∧ s.received = []
  enabled := fun s step => Posted s.core step.2
  next := fun s step =>
    ⟨handleEvent step.1 s.core step.2, s.received ++ receipt step.1 s.core step.2⟩

/-- The round with which `handleRoundChange` calls `startNewRound` on an event. -/
def newRoundCalled (be : Backend P) (c : Core P) (event : Event P) : Option Nat :=
  if c.crashed = true then none
  else
    match heardMessage be c event with
    | some (msg, _) => if msg.code = msgRoundChange then newRoundCall c msg else none
    | none => none

def roundChangers (received : List (Address × Message)) (view : View) : Finset Address :=
  ((received.filter fun entry => decide (entry.2.code = msgRoundChange) &&
    decide (entry.2.decodeSubject.map Subject.view = some view)).map Prod.fst).toFinset

/-- At least `2F + 1` validators sent a ROUND CHANGE for the round in the sequence of
the core. -/
def Certified (c : Core P) (received : List (Address × Message)) (round : Nat) : Prop :=
  2 * c.valSet.f + 1 ≤ ((roundChangers received ⟨round, c.current.sequence⟩).filter
    fun v => v ∈ c.valSet.validators).card

instance (c : Core P) (received : List (Address × Message)) (round : Nat) :
    Decidable (Certified c received round) :=
  inferInstanceAs (Decidable (_ ≤ _))

theorem traced_init {s : Trace P} (found : (start be address).map (⟨·, []⟩) = some s) :
    (tracedSystem P address).init s := by
  obtain ⟨c, started, rfl⟩ := Option.map_eq_some_iff.mp found
  exact ⟨⟨be, started⟩, rfl⟩

/-- A ROUND CHANGE that comes in is signed by the validator it names, and its round
fits into 64 bits. -/
def PlainVotes (s : Trace P) (step : Backend P × Event P) : Prop :=
  ∀ payload msg src, step.2 = .message payload →
    checkPayload step.1.crypto s.core.valSet payload = .ok (msg, src) →
    msg.code = msgRoundChange → signerOf step.1.crypto msg = some msg.address ∧
      ∀ sub, msg.decodeSubject = some sub → sub.view.round < 2 ^ 64

def Vouched (received : List (Address × Message)) (m : Message) : Prop :=
  m.code = msgRoundChange → (m.address, m) ∈ received ∧
    ∀ sub, m.decodeSubject = some sub → sub.view.round < 2 ^ 64

theorem Vouched.mono {received : List (Address × Message)} {m : Message}
    (vouched : Vouched received m) (more : List (Address × Message)) :
    Vouched (received ++ more) m := by
  intro code
  obtain ⟨member, small⟩ := vouched code
  exact ⟨List.mem_append_left _ member, small⟩

structure TraceInv (s : Trace P) : Prop where
  tallied : Tallied (Vouched s.received) s.core
  queued : ∀ src m, Queued s.core src m → Vouched s.received m

omit [Proposal P] in
theorem heard_vouched (inv : TraceInv s) (posted : Posted s.core step.2) (plain : PlainVotes s step)
    {src : Address} (heard : Heard step.1 s.core step.2 msg src) :
    Vouched (s.received ++ receipt step.1 s.core step.2) msg := by
  obtain ⟨be, event⟩ := step
  cases event with
  | request | timeout | finalCommitted => cases heard
  | backlog source stored =>
    cases heard
    exact (inv.queued src msg (Or.inr posted)).mono _
  | message payload =>
    have passed := heard_message_iff.mp heard
    intro code
    obtain ⟨signed, small⟩ := plain payload msg src rfl passed code
    refine ⟨List.mem_append_right _ ?_, small⟩
    simp only [receipt, passed, signed, Option.map_some, Option.toList_some, List.mem_singleton]

theorem TraceInv.next (inv : TraceInv s) (posted : Posted s.core step.2) (plain : PlainVotes s step)
    (address : Address) :
    TraceInv ((tracedSystem P address).next s step) where
  tallied := by
    apply Tallied.handleEvent
    · exact inv.tallied.mono fun m vouched => vouched.mono _
    · intro msg src heard
      exact heard_vouched inv posted plain heard
  queued := by
    refine kept_by_moves (fun d : Core P => ∀ src m, Queued d src m →
      Vouched (s.received ++ receipt step.1 s.core step.2) m) ?_
      (handleEvent_moves step.1 s.core step.2) ?_
    · intro d e move earlier src m queued
      rcases queued_of_move move queued with before | heard
      · exact earlier src m before
      · exact heard_vouched inv posted plain heard
    · intro src m queued
      exact (inv.queued src m queued).mono _

theorem traceInv_of_reachable (reached : Reachable (tracedSystem P address) PlainVotes s) :
    TraceInv s := by
  refine reached.invariant TraceInv ?_ ?_
  · rintro s ⟨⟨be, started⟩, nothing⟩
    refine ⟨Tallied.start started, ?_⟩
    obtain ⟨last, quiet⟩ := start_eq_some started
    intro src m queued
    rcases quiet.queued src m queued with (⟨backlog, prio, found, _⟩ | posted) | heard
    · simp [freshCore, newCore] at found
    · simp [freshCore, newCore] at posted
    · exact heard.elim
  · intro s step inv posted plain
    exact inv.next posted plain address

omit [Proposal P] in
theorem newRoundCall_eq_some {r : Nat} (called : newRoundCall c msg = some r) :
    ∃ rc set, msg.decodeSubject = some rc ∧ checkMessage c msgRoundChange rc.view = none ∧
      rc.view.round = r ∧
      (recorded c r msg).roundChangeSet.roundChanges[r % 2 ^ 64]? = some set ∧
      (set.size : Int) = 2 * c.valSet.f + 1 ∧
      (c.waitingForRoundChange = true ∨ c.current.round < r) := by
  unfold newRoundCall at called
  split at called
  · cases called
  · rename_i rc decoded
    split at called
    · rename_i num passed added
      split at called
      · rename_i enough
        cases called
        obtain ⟨set, result, outcome⟩ := add_cases c.roundChangeSet rc.view.round msg
        refine ⟨rc, set, decoded, passed, rfl, ?_, ?_, enough.2.2⟩
        · rw [recorded, result]
          exact ExtTreeMap.getElem?_insert_self
        · rcases outcome with ⟨⟨err, refused⟩, _⟩ | ⟨counted, _⟩
          · rw [added] at refused
            cases refused
          · rw [added] at counted
            cases counted
            exact enough.2.1
      · cases called
    · cases called

/-- Behind every call of `startNewRound` from `handleRoundChange` stand `2F + 1`
validators that sent a ROUND CHANGE for exactly that round, if every ROUND CHANGE is
signed by the validator it names and its round fits into 64 bits. -/
theorem round_change_certified {address : Address} {s : Trace P}
    (reached : Reachable (tracedSystem P address) PlainVotes s) {step : Backend P × Event P}
    (posted : (tracedSystem P address).enabled s step) (plain : PlainVotes s step) {r : Nat}
    (called : newRoundCalled step.1 s.core step.2 = some r) :
    Certified s.core ((tracedSystem P address).next s step).received r := by
  have inv := traceInv_of_reachable reached
  unfold newRoundCalled at called
  split at called
  · cases called
  · split at called
    · rename_i msg src heard
      split at called
      · rename_i code
        obtain ⟨rc, set, decoded, passed, rfl, found, size, _⟩ := newRoundCall_eq_some called
        have vouched := heard_vouched inv posted plain heard
        have small := (vouched code).2 rc decoded
        have tallied := (inv.tallied.mono fun m known => known.mono
          (receipt step.1 s.core step.2)).recorded code decoded passed vouched
        have senders : set.senders ⊆ (roundChangers
            ((tracedSystem P address).next s step).received
            ⟨rc.view.round, s.core.current.sequence⟩).filter
            fun v => v ∈ s.core.valSet.validators := by
          intro v member
          obtain ⟨m, stored⟩ := (set.mem_senders v).mp member
          obtain ⟨sameAddress, listed⟩ := set.verified v m stored
          obtain ⟨voteCode, ⟨sub, voteDecoded, sequence, cut⟩, good⟩ :=
            tallied.votes _ set v m found stored
          obtain ⟨inReceived, voteSmall⟩ := good voteCode
          have sameRound : sub.view.round = rc.view.round := by
            have bound := voteSmall sub voteDecoded
            rwa [Nat.mod_eq_of_lt bound, Nat.mod_eq_of_lt small] at cut
          have sameView : sub.view = ⟨rc.view.round, s.core.current.sequence⟩ := by
            rw [← sameRound, ← show sub.view.sequence = s.core.current.sequence from sequence]
          rw [Finset.mem_filter, roundChangers, List.mem_toFinset, List.mem_map]
          refine ⟨⟨(v, m), List.mem_filter.mpr ⟨?_, ?_⟩, rfl⟩, ?_⟩
          · rw [← sameAddress]
            exact inReceived
          · simp only [voteCode, voteDecoded, Option.map_some, sameView, decide_true, Bool.and_self]
          · rw [tallied.members _ set found] at listed
            rw [tallied.listed] at listed
            exact listed
        rw [Certified]
        have enough := Finset.card_le_card senders
        rw [set.card_senders] at enough
        omega
      · cases called
    · cases called

/-- An executable form of `PlainVotes` for a step that is no backlog event. -/
def votesPlainly (s : Trace P) (step : Backend P × Event P) : Bool :=
  match step.2 with
  | .backlog _ _ => false
  | .message payload =>
    match checkPayload step.1.crypto s.core.valSet payload with
    | .error _ => true
    | .ok (msg, _) => decide (signerOf step.1.crypto msg = some msg.address) &&
        msg.decodeSubject.all fun sub => decide (sub.view.round < 2 ^ 64)
  | _ => true

theorem votesPlainly_sound (plainly : votesPlainly s step = true) :
    (tracedSystem P address).enabled s step ∧ PlainVotes s step := by
  obtain ⟨be, event⟩ := step
  refine ⟨?_, ?_⟩
  · cases event with
    | backlog src msg => cases plainly
    | _ => trivial
  · rintro payload msg src same passed code
    subst same
    simp only [votesPlainly, passed, Bool.and_eq_true, decide_eq_true_eq] at plainly
    refine ⟨plainly.1, ?_⟩
    intro sub decoded
    have small := plainly.2
    rw [decoded] at small
    exact of_decide_eq_true small

end

/-! ## Three votes for a round -/

def firstHeight : Backend NumberedBlock :=
  chainBackend (sampleAddress 3) (⟨0, 0⟩, zeroAddress) []

def roundChangeOf (sender : UInt8) (round : Nat) : Backend NumberedBlock × Event NumberedBlock :=
  (firstHeight, .message (samplePayload sender sender msgRoundChange
    (Subject.encodeRLP ⟨⟨round, 1⟩, FixedBytes.zero 32⟩) []))

def twoVotes : List (Backend NumberedBlock × Event NumberedBlock) :=
  [roundChangeOf 1 1, roundChangeOf 2 1]

theorem round_change_certified_first_round : ∃ s : Trace NumberedBlock,
    Reachable (tracedSystem NumberedBlock (sampleAddress 3)) PlainVotes s ∧
      newRoundCalled (roundChangeOf 4 1).1 s.core (roundChangeOf 4 1).2 = some 1 ∧
      Certified s.core ((tracedSystem NumberedBlock (sampleAddress 3)).next s
        (roundChangeOf 4 1)).received 1 := by
  obtain ⟨s, reached, last⟩ : ∃ s, Reachable (tracedSystem NumberedBlock (sampleAddress 3))
      PlainVotes s ∧ (votesPlainly s (roundChangeOf 4 1) && decide (newRoundCalled
        (roundChangeOf 4 1).1 s.core (roundChangeOf 4 1).2 = some 1)) = true :=
    exists_run ((start firstHeight (sampleAddress 3)).map (⟨·, []⟩)) twoVotes
      (fun _ => traced_init) (fun _ _ _ => votesPlainly_sound) (by decide +kernel)
  rw [Bool.and_eq_true] at last
  obtain ⟨posted, plain⟩ := votesPlainly_sound last.1
  have call := of_decide_eq_true last.2
  exact ⟨s, reached, call, round_change_certified reached posted plain call⟩

/-- A third vote whose round is `2 ^ 64` larger counts with the other two, and the
new round is one that a single validator asked for. -/
theorem wrapped_round_not_certified : ∃ s : Trace NumberedBlock,
    Reachable (tracedSystem NumberedBlock (sampleAddress 3)) (fun _ _ => True) s ∧
      newRoundCalled (roundChangeOf 4 (2 ^ 64 + 1)).1 s.core (roundChangeOf 4 (2 ^ 64 + 1)).2 =
        some (2 ^ 64 + 1) ∧
      ¬ Certified s.core ((tracedSystem NumberedBlock (sampleAddress 3)).next s
        (roundChangeOf 4 (2 ^ 64 + 1))).received (2 ^ 64 + 1) := by
  obtain ⟨s, reached, last⟩ : ∃ s, Reachable (tracedSystem NumberedBlock (sampleAddress 3))
      (fun _ _ => True) s ∧ (decide (newRoundCalled (roundChangeOf 4 (2 ^ 64 + 1)).1 s.core
        (roundChangeOf 4 (2 ^ 64 + 1)).2 = some (2 ^ 64 + 1)) &&
      !decide (Certified s.core ((tracedSystem NumberedBlock (sampleAddress 3)).next s
        (roundChangeOf 4 (2 ^ 64 + 1))).received (2 ^ 64 + 1))) = true :=
    exists_run ((start firstHeight (sampleAddress 3)).map (⟨·, []⟩)) twoVotes
      (fun _ => traced_init) (fun _ _ _ external => ⟨posted_of_external external, trivial⟩)
      (by decide +kernel)
  rw [Bool.and_eq_true] at last
  exact ⟨s, reached, of_decide_eq_true last.1, by simpa using last.2⟩

end Linkeye.Dbft.RoundChanges
