import Linkeye.Dbft.RoundChanges

/-!
# Acting on a complete certificate

A core that waits for a round change leaves the round when the last of `2F + 1`
messages comes in, unless `F() + 1` and `2F() + 1` are the same number.  With four or
more validators they differ, and the messages of every round that is still open stay
below the certificate.
-/

set_option autoImplicit false

namespace Linkeye.Dbft.Waiting

open Common.Types Common.Signature Lib.Runs Dbft.Types Round Validator Handlers Moves
open Authenticity CoreRuns RoundChanges

section Waiting
variable {P : Type} {c : Core P} {msg : Message}

/-- The round change set holds messages for the current round from at least `2F + 1`
validators. -/
def HoldsCertificate (c : Core P) : Prop :=
  ∃ senders : Finset Address, 2 * c.valSet.f + 1 ≤ senders.card ∧
    ∀ v ∈ senders, ∃ (key : Nat) (set : MessageSet) (m : Message) (sub : Subject),
      c.roundChangeSet.roundChanges[key]? = some set ∧ set.get v = some m ∧
        m.decodeSubject = some sub ∧ sub.view.round = c.current.round

/-- The rounds that `handleRoundChange` would still act on. -/
def Open (c : Core P) (key : Nat) : Prop :=
  c.current.round < key ∨ c.waitingForRoundChange = true ∧ c.current.round ≤ key

structure Unfinished (c : Core P) : Prop where
  open_small : ∀ (key : Nat) (set : MessageSet), c.roundChangeSet.roundChanges[key]? = some set →
    Open c key → (set.size : Int) ≤ 2 * c.valSet.f
  waiting : c.waitingForRoundChange = true → 1 ≤ c.current.round

theorem f_congr {vs ws : ValidatorSet} (same : vs.validators = ws.validators) : vs.f = ws.f := by
  rw [ValidatorSet.f, ValidatorSet.f, ValidatorSet.size, ValidatorSet.size, same]

theorem Unfinished.of_empty (empty : c.roundChangeSet.roundChanges = ∅)
    (waiting : c.waitingForRoundChange = false) : Unfinished c where
  open_small := by
    intro key set found
    rw [empty, Std.ExtTreeMap.getElem?_empty] at found
    cases found
  waiting := by
    intro contra
    rw [waiting] at contra
    cases contra

theorem Unfinished.turn {d : Core P} (unfinished : Unfinished c) (turn : Turn c d) :
    Unfinished d := by
  cases turn with
  | still view waiting validators set =>
    have round : d.current.round = c.current.round := congrArg View.round view
    refine ⟨?_, ?_⟩
    · intro key held found stillOpen
      rw [set] at found
      rw [Open, round, waiting] at stillOpen
      rw [f_congr validators]
      exact unfinished.open_small key held found stillOpen
    · rw [waiting, round]
      exact unfinished.waiting
  | newSequence _ waiting empty | newRound _ _ waiting empty => exact .of_empty empty waiting
  | catchUp sequence advance waiting validators set =>
    refine ⟨?_, fun _ => by omega⟩
    intro key held found stillOpen
    rw [set] at found
    rw [f_congr validators]
    refine unfinished.open_small key held (roundChangeSet_clear_recorded found) (Or.inl ?_)
    rcases stillOpen with later | ⟨_, later⟩
    · exact advance.trans later
    · exact advance.trans_le later

theorem Unfinished.turns {d : Core P} (turns : TurnSeq c d) (unfinished : Unfinished c) :
    Unfinished d :=
  kept_by_moves Unfinished (fun _ _ turn before => before.turn turn) turns unfinished

/-! ## One more message -/

theorem size_newMessageSet (valSet : ValidatorSet) : (newMessageSet valSet).size = 0 :=
  Std.ExtTreeMap.size_empty

theorem size_add_le {ms added : MessageSet} (accepted : ms.add msg = .ok added) :
    added.size ≤ ms.size + 1 := by
  unfold MessageSet.add at accepted
  split at accepted
  · cases accepted
  · cases accepted
    exact Std.ExtTreeMap.size_insert_le

theorem Unfinished.found (unfinished : Unfinished c) (some_f : 0 ≤ c.valSet.f) {key : Nat}
    (isOpen : Open c key) :
    ((c.roundChangeSet.roundChanges[key]?.getD
      (newMessageSet c.roundChangeSet.validatorSet)).size : Int) ≤ 2 * c.valSet.f := by
  cases present : c.roundChangeSet.roundChanges[key]? with
  | none =>
    rw [Option.getD_none, size_newMessageSet]
    omega
  | some set => exact unfinished.open_small key set present isOpen

theorem Unfinished.recorded {rc : Subject} (unfinished : Unfinished c) (many : 1 ≤ c.valSet.f)
    (decoded : msg.decodeSubject = some rc) (passed : checkMessage c msgRoundChange rc.view = none)
    (fits : rc.view.round < 2 ^ 64) (uncalled : newRoundCall c msg = none) :
    Unfinished (recorded c rc.view.round msg) := by
  obtain ⟨added, result, outcome⟩ := add_cases c.roundChangeSet rc.view.round msg
  refine ⟨?_, unfinished.waiting⟩
  intro key set found isOpen
  rw [RoundChanges.recorded, result] at found
  rw [Std.ExtTreeMap.getElem?_insert] at found
  change (set.size : Int) ≤ 2 * c.valSet.f
  split at found
  · rename_i same
    cases found
    have cut : rc.view.round = key := by
      rw [← Std.LawfulEqOrd.eq_of_compare same, Nat.mod_eq_of_lt fits]
    subst cut
    rw [Nat.mod_eq_of_lt fits] at outcome
    have before := unfinished.found (by omega) isOpen
    rcases outcome with ⟨_, rfl⟩ | ⟨counted, accepted⟩
    · exact before
    · have grown := size_add_le accepted
      simp only [newRoundCall, decoded, passed, counted] at uncalled
      split at uncalled
      · cases uncalled
      · rename_i refused
        -- the count is `F + 1`, or not `2F + 1`, or the round is not open
        by_contra large
        apply refused
        refine ⟨?_, by omega, ?_⟩
        · rintro ⟨_, weak⟩
          omega
        · rcases isOpen with later | ⟨waiting, _⟩
          · exact Or.inr later
          · exact Or.inl waiting
  · exact unfinished.open_small key set found isOpen

/-! ## Starting the round -/

variable [Proposal P]

def Reset (c : Core P) : Prop :=
  c.roundChangeSet.roundChanges = ∅ ∧ c.waitingForRoundChange = false

theorem Reset.setState (reset : Reset c) (state : State) : Reset (setState c state) := by
  have quiet : Quiet (fun _ _ => False) _ (Handlers.setState c state) := quiet_setState c state
  rw [Reset, quiet.roundChangeSet, quiet.waiting]
  exact reset

theorem Reset.sendPreprepare {be : Backend P} (reset : Reset c) (request : Option P) :
    Reset (sendPreprepare be c request) := by
  obtain ⟨outputs, crashed, same⟩ := sendPreprepare_frame be c request
  rw [same]
  exact reset

theorem enterNewRound_resets (be : Backend P) (c : Core P) (lastProposer : Address)
    (newView : View) (roundChange : Bool) :
    Reset (enterNewRound be c lastProposer newView roundChange) := by
  unfold enterNewRound
  dsimp only
  split
  · split
    · exact .sendPreprepare (.setState ⟨rfl, rfl⟩ _) _
    · split
      · exact .sendPreprepare (.setState ⟨rfl, rfl⟩ _) _
      · exact .setState ⟨rfl, rfl⟩ _
  · exact .setState ⟨rfl, rfl⟩ _

theorem bmod_of_small {n : Int} (lower : 0 ≤ n) (upper : n < 2 ^ 63) : n.bmod (2 ^ 64) = n :=
  Int.bmod_eq_of_le (by norm_num; omega) (by norm_num; omega)

theorem previousSequence_succ {n : Nat} (range : n + 1 < 2 ^ 63) :
    previousSequence (n + 1) = n := by
  have upper : (n : Int) + 1 < 2 ^ 63 := by exact_mod_cast range
  have whole : Int.bmod ((n + 1 : Nat) : Int) (2 ^ 64) = (n : Int) + 1 := by
    rw [Nat.cast_add, Nat.cast_one]
    exact bmod_of_small (by omega) upper
  unfold previousSequence
  rw [whole, add_sub_cancel_right]
  exact bmod_of_small (Int.natCast_nonneg n) ((lt_add_one _).trans upper)

theorem startNewRound_resets {be : Backend P} {round : Nat} {last : P}
    (known : be.lastProposal.1 = some last) (recent : c.current.sequence ≤ Proposal.number last + 1)
    (range : Proposal.number last + 1 < 2 ^ 63) (positive : round ≠ 0)
    (later : c.current.round ≤ round) :
    Reset (startNewRound be c round) := by
  unfold startNewRound
  rw [known]
  dsimp only
  split
  · exact enterNewRound_resets be _ _ _ _
  · have same : (Proposal.number last : Int) = previousSequence c.current.sequence := by
      have exact_sequence : c.current.sequence = Proposal.number last + 1 := by omega
      rw [exact_sequence, previousSequence_succ range]
    simp only [if_pos same, if_neg (not_lt.mpr later)]
    exact enterNewRound_resets be _ _ _ _

/-! ## Runs -/

/-- There are four or more validators, the last proposal is not older than the one the
sequence was started from, and rounds fit into 64 bits. -/
structure Steady (c : Core P) (step : Backend P × Event P) : Prop where
  validators : 4 ≤ c.valSet.size
  recent : ∃ last, step.1.lastProposal.1 = some last ∧
    c.current.sequence ≤ Proposal.number last + 1 ∧ Proposal.number last + 1 < 2 ^ 63
  heard : ∀ msg src sub, Heard step.1 c step.2 msg src → msg.code = msgRoundChange →
    msg.decodeSubject = some sub → sub.view.round < 2 ^ 64
  round : (handleEvent step.1 c step.2).current.round < 2 ^ 64

theorem Unfinished.handleRoundChange {be : Backend P} {last : P} (unfinished : Unfinished c)
    (many : 1 ≤ c.valSet.f) (known : be.lastProposal.1 = some last)
    (recent : c.current.sequence ≤ Proposal.number last + 1)
    (range : Proposal.number last + 1 < 2 ^ 63)
    (fits : ∀ sub, msg.decodeSubject = some sub → sub.view.round < 2 ^ 64) :
    Unfinished (handleRoundChange be c msg).1 := by
  rcases handleRoundChange_cases be c msg with ⟨_, same⟩ | ⟨rc, decoded, passed, outcome⟩
  · rw [same]
    exact unfinished
  · rcases outcome with ⟨uncalled, ended⟩ | ⟨called, started⟩
    · have kept := unfinished.recorded many decoded passed (fits rc decoded) uncalled
      rcases ended with same | sent
      · rw [same]
        exact kept
      · rw [sent]
        exact Unfinished.turns (turns_sendRoundChange be _ _) kept
    · obtain ⟨_, later⟩ := checkMessage_roundChange passed
      -- round zero is never asked for: a waiting core is past it
      have positive : rc.view.round ≠ 0 := by
        intro zero
        obtain ⟨_, _, _, _, _, _, _, waiting | ahead⟩ := newRoundCall_eq_some called
        · have := unfinished.waiting waiting
          omega
        · omega
      obtain ⟨empty, waiting⟩ := startNewRound_resets 
        (c := RoundChanges.recorded c rc.view.round msg) known
        recent range positive later
      rw [started]
      exact .of_empty empty waiting

theorem Unfinished.handleEvent {step : Backend P × Event P} (unfinished : Unfinished c)
    (steady : Steady c step) :
    Unfinished (handleEvent step.1 c step.2) := by
  rcases handleEvent_turns step.1 c step.2 with turns | ⟨msg, src, heard, code, turns⟩
  · exact Unfinished.turns turns unfinished
  · obtain ⟨last, known, recent, range⟩ := steady.recent
    have many : 1 ≤ c.valSet.f := by
      have four := steady.validators
      rw [ValidatorSet.f]
      omega
    exact Unfinished.turns turns (unfinished.handleRoundChange many known recent range
      fun sub decoded => steady.heard msg src sub heard code decoded)

/-- What holds of every state of a steady run. -/
structure SteadyInv (c : Core P) : Prop where
  unfinished : Unfinished c
  tallied : Tallied (fun _ => True) c
  round : c.current.round < 2 ^ 64

theorem steadyInv_of_reachable {address : Address}
    (reached : Reachable (freeSystem P address) Steady c) : SteadyInv c := by
  refine reached.invariant SteadyInv ?_ ?_
  · rintro c ⟨be, _, started⟩
    obtain ⟨last, quiet⟩ := start_eq_some started
    obtain ⟨request, current⟩ := quiet.current
    refine ⟨.of_empty ?_ quiet.waiting, Tallied.start started, ?_⟩
    · rw [quiet.roundChangeSet]
      rfl
    · rw [current]
      exact Nat.two_pow_pos 64
  · intro c step inv _ steady
    exact ⟨inv.unfinished.handleEvent steady, inv.tallied.handleEvent fun _ _ _ => trivial,
      steady.round⟩

/-- A waiting core never holds a complete certificate for its round. -/
theorem no_certificate_ignored {address : Address} {c : Core P}
    (reached : Reachable (freeSystem P address) Steady c) (nonempty : 1 ≤ c.valSet.size) :
    ¬ (c.waitingForRoundChange = true ∧ HoldsCertificate c) := by
  rintro ⟨waiting, senders, enough, held⟩
  obtain ⟨unfinished, tallied, round⟩ := steadyInv_of_reachable reached
  have inSet : ∀ v ∈ senders, ∃ set m, c.roundChangeSet.roundChanges[c.current.round]? = some set ∧
      set.get v = some m := by
    intro v member
    obtain ⟨key, set, m, sub, found, stored, decoded, same⟩ := held v member
    obtain ⟨_, ⟨other, otherDecoded, _, cut⟩, _⟩ := tallied.votes key set v m found stored
    obtain rfl := Option.some.inj (decoded.symm.trans otherDecoded)
    rw [same, Nat.mod_eq_of_lt round] at cut
    subst cut
    exact ⟨set, m, found, stored⟩
  have some_sender : senders.Nonempty := by
    rw [← Finset.card_pos]
    rw [ValidatorSet.f] at enough
    omega
  obtain ⟨first, firstMember⟩ := some_sender
  obtain ⟨set, _, found, _⟩ := inSet first firstMember
  have covered : senders ⊆ set.senders := by
    intro v member
    obtain ⟨other, m, otherFound, stored⟩ := inSet v member
    obtain rfl := Option.some.inj (found.symm.trans otherFound)
    exact (set.mem_senders v).mpr ⟨m, stored⟩
  have few := unfinished.open_small _ set found (Or.inr ⟨waiting, le_rfl⟩)
  have bound := Finset.card_le_card covered
  rw [set.card_senders] at bound
  omega

/-- An executable form of `Steady` for a step that is no backlog event. -/
def steadily (c : Core P) (step : Backend P × Event P) : Bool :=
  !isBacklog step.2 && decide (4 ≤ c.valSet.size) &&
    (step.1.lastProposal.1.any fun last => decide (c.current.sequence ≤ Proposal.number last + 1 ∧
      Proposal.number last + 1 < 2 ^ 63)) &&
    ((heardMessage step.1 c step.2).all fun entry =>
      entry.1.decodeSubject.all fun sub => decide (sub.view.round < 2 ^ 64)) &&
    decide ((handleEvent step.1 c step.2).current.round < 2 ^ 64)

theorem steadily_sound {address : Address} {step : Backend P × Event P}
    (steady : steadily c step = true) :
    (freeSystem P address).enabled c step ∧ Steady c step := by
  simp only [steadily, Bool.and_eq_true, decide_eq_true_eq] at steady
  obtain ⟨⟨⟨⟨external, validators⟩, recent⟩, heard⟩, round⟩ := steady
  refine ⟨⟨trivial, posted_of_external external⟩, validators, ?_, ?_, round⟩
  · obtain ⟨last, known, bounds⟩ := (Option.any_eq_true _ _).mp recent
    exact ⟨last, known, of_decide_eq_true bounds⟩
  · intro msg src sub brought _ decoded
    rw [show heardMessage step.1 c step.2 = some (msg, src) from brought] at heard
    change (msg.decodeSubject.all fun sub => decide (sub.view.round < 2 ^ 64)) = true at heard
    rw [decoded] at heard
    exact of_decide_eq_true heard

end Waiting

/-! ## A timeout with four validators and with one -/

def fourTimeout : List (Backend NumberedBlock × Event NumberedBlock) :=
  [(firstHeight, .timeout), roundChangeOf 3 1, roundChangeOf 1 1]

theorem no_certificate_ignored_four : ∃ c : Core NumberedBlock,
    Reachable (freeSystem NumberedBlock (sampleAddress 3)) Steady c ∧
      c.waitingForRoundChange = true ∧ 1 ≤ c.valSet.size ∧
      ¬ (c.waitingForRoundChange = true ∧ HoldsCertificate c) := by
  obtain ⟨c, reached, last⟩ : ∃ c, Reachable (freeSystem NumberedBlock (sampleAddress 3)) Steady c ∧
      (c.waitingForRoundChange && decide (1 ≤ c.valSet.size)) = true :=
    exists_run (start firstHeight (sampleAddress 3)) fourTimeout
      (fun _ run => ⟨firstHeight, trivial, run⟩) (fun _ _ _ => steadily_sound) (by decide +kernel)
  rw [Bool.and_eq_true, decide_eq_true_eq] at last
  exact ⟨c, reached, last.1, last.2, no_certificate_ignored reached last.2⟩

def soloBackend : Backend NumberedBlock :=
  { chainBackend (sampleAddress 1) (⟨0, 0⟩, zeroAddress) [] with
    validators := fun _ => newSet plainCrypto.keccak256 [sampleAddress 1] .roundRobin }

def soloTimeout : List (Backend NumberedBlock × Event NumberedBlock) :=
  [(soloBackend, .timeout), (soloBackend, .message (samplePayload 1 1 msgRoundChange
    (Subject.encodeRLP ⟨⟨1, 1⟩, FixedBytes.zero 32⟩) []))]

/-- With one validator `F() + 1` and `2F() + 1` are both 1, and the first branch takes
the message that completes the certificate. -/
theorem solo_certificate_ignored : ∃ c : Core NumberedBlock,
    Reachable (freeSystem NumberedBlock (sampleAddress 1)) (fun _ _ => True) c ∧
      c.valSet.size = 1 ∧ c.waitingForRoundChange = true ∧ HoldsCertificate c := by
  obtain ⟨c, reached, last⟩ : ∃ c : Core NumberedBlock,
      Reachable (freeSystem NumberedBlock (sampleAddress 1)) (fun _ _ => True) c ∧ decide (c.valSet.size = 1 ∧ c.waitingForRoundChange = true ∧
        c.current.round = 1 ∧ ((c.roundChangeSet.roundChanges[1]?).bind fun set : MessageSet =>
          (set.get (sampleAddress 1)).bind Message.decodeSubject) =
            some (⟨⟨1, 1⟩, FixedBytes.zero 32⟩ : Subject)) = true :=
    exists_run (start soloBackend (sampleAddress 1)) soloTimeout
      (fun _ run => ⟨soloBackend, trivial, run⟩) (fun _ _ _ => external_sound) (by decide +kernel)
  obtain ⟨size, waiting, round, held⟩ := of_decide_eq_true last
  obtain ⟨set, found, inSet⟩ := Option.bind_eq_some_iff.mp held
  obtain ⟨m, stored, decoded⟩ := Option.bind_eq_some_iff.mp inSet
  refine ⟨c, reached, size, waiting, {sampleAddress 1}, ?_, ?_⟩
  · rw [ValidatorSet.f, size, Finset.card_singleton]
    decide
  · intro v member
    rw [Finset.mem_singleton] at member
    subst member
    exact ⟨1, set, m, _, found, stored, decoded, round.symm⟩

end Linkeye.Dbft.Waiting
