import Linkeye.Dbft.Moves
import Linkeye.Lib.Runs

/-!
# Who a message is recorded under

`FromPayload` drops the address that the signature recovers to and the message
sets are keyed by the address the message names.  `senderAuthentic_iff` says
exactly which payloads make the two differ.
-/

set_option autoImplicit false

namespace Linkeye.Dbft.Authenticity

open Std Common.Types Common.Signature Rlp.Encode Lib.Runs Dbft.Types Round Validator Handlers
  Moves

def signerOf (crypto : Crypto) (m : Message) : Option Address :=
  m.payloadNoSig.bind fun data => getSignatureAddress crypto data m.signature

section
variable {P : Type} [Proposal P]

/-- A PREPARE, COMMIT or ROUND CHANGE stands under an address. -/
def Recorded (c : Core P) (addr : Address) (m : Message) : Prop :=
  c.current.prepares.get addr = some m ∨ c.current.commits.get addr = some m ∨
    ∃ (round : Nat) (set : MessageSet),
      c.roundChangeSet.roundChanges[round]? = some set ∧ set.get addr = some m

theorem roundChangeSet_add_recorded {rcs : RoundChangeSet} {r round : Nat} {msg m : Message}
    {set : MessageSet} {addr : Address}
    (found : (rcs.add r msg).1.roundChanges[round]? = some set) (stored : set.get addr = some m) :
    m = msg ∧ addr = msg.address ∨
      ∃ before, rcs.roundChanges[round]? = some before ∧ before.get addr = some m := by
  have fromFound : (rcs.roundChanges[r % 2 ^ 64]?.getD (newMessageSet rcs.validatorSet)).get addr =
      some m → ∃ before, rcs.roundChanges[r % 2 ^ 64]? = some before ∧ before.get addr = some m := by
    intro inFound
    cases before : rcs.roundChanges[r % 2 ^ 64]? with
    | none =>
      rw [before, Option.getD_none, MessageSet.get_newMessageSet] at inFound
      cases inFound
    | some set =>
      rw [before, Option.getD_some] at inFound
      exact ⟨set, rfl, inFound⟩
  unfold RoundChangeSet.add at found
  dsimp only at found
  split at found
  · rw [ExtTreeMap.getElem?_insert] at found
    split at found
    · rename_i same
      rw [← LawfulEqOrd.eq_of_compare same]
      cases found
      exact Or.inr (fromFound stored)
    · exact Or.inr ⟨set, found, stored⟩
  · rename_i added addition
    rw [ExtTreeMap.getElem?_insert] at found
    split at found
    · rename_i same
      rw [← LawfulEqOrd.eq_of_compare same]
      cases found
      rcases (MessageSet.add_eq_ok addition).2 addr m stored with new | before
      · exact Or.inl new
      · exact Or.inr (fromFound before)
    · exact Or.inr ⟨set, found, stored⟩

theorem roundChangeSet_clear_recorded {rcs : RoundChangeSet} {r round : Nat} {set : MessageSet}
    (found : (rcs.clear r).roundChanges[round]? = some set) :
    rcs.roundChanges[round]? = some set := by
  simp only [RoundChangeSet.clear, ExtTreeMap.getElem?_filter] at found
  exact Option.eq_some_of_pfilter_eq_some found

/-- A move records nothing but the message of the event, under its own address. -/
theorem recorded_of_move {ctx : Context P} {c d : Core P} (move : Move ctx c d) {addr : Address}
    {m : Message} (recorded : Recorded d addr m) :
    Recorded c addr m ∨ addr = m.address ∧ ∃ src, ctx.heard m src := by
  have emptied : ∀ (valSet : ValidatorSet),
      (newRoundChangeSet valSet).roundChanges = ∅ := fun _ => rfl
  have carriedSets : ∀ view, (carried ctx.be c view).prepares = newMessageSet c.valSet ∧
      (carried ctx.be c view).commits = newMessageSet c.valSet := by
    intro view
    unfold carried
    split <;> exact ⟨rfl, rfl⟩
  cases move with
  | quiet quiet =>
    obtain ⟨request, current⟩ := quiet.current
    rw [Recorded, current, quiet.roundChangeSet] at recorded
    exact Or.inl recorded
  | send | acceptPreprepare | commit | unlock => exact Or.inl recorded
  | newSequence =>
    rcases recorded with prepare | commit | ⟨round, set, found, _⟩
    · simp [newRoundState] at prepare
    · simp [newRoundState] at commit
    · simp [emptied] at found
  | newRound round =>
    rcases recorded with prepare | commit | ⟨round, set, found, _⟩
    · simp [(carriedSets _).1] at prepare
    · simp [(carriedSets _).2] at commit
    · simp [emptied] at found
  | catchUp round =>
    rcases recorded with prepare | commit | ⟨_, set, found, stored⟩
    · simp [(carriedSets _).1] at prepare
    · simp [(carriedSets _).2] at commit
    · exact Or.inl (Or.inr (Or.inr ⟨_, set, roundChangeSet_clear_recorded found, stored⟩))
  | recordPrepare msg src sub prepares unmoved heard code decoded subject left added =>
    rcases recorded with prepare | other
    · rcases (MessageSet.add_eq_ok added).2 addr m prepare with ⟨rfl, sender⟩ | before
      · exact Or.inr ⟨sender, src, heard⟩
      · exact Or.inl (Or.inl before)
    · exact Or.inl (Or.inr other)
  | recordCommit msg src sub commits unmoved heard code decoded subject left added =>
    rcases recorded with prepare | commit | roundChange
    · exact Or.inl (Or.inl prepare)
    · rcases (MessageSet.add_eq_ok added).2 addr m commit with ⟨rfl, sender⟩ | before
      · exact Or.inr ⟨sender, src, heard⟩
      · exact Or.inl (Or.inr (Or.inl before))
    · exact Or.inl (Or.inr (Or.inr roundChange))
  | recordRoundChange msg src sub heard =>
    rcases recorded with prepare | commit | ⟨round, set, found, stored⟩
    · exact Or.inl (Or.inl prepare)
    · exact Or.inl (Or.inr (Or.inl commit))
    · rcases roundChangeSet_add_recorded found stored with ⟨rfl, sender⟩ | ⟨before, was, kept⟩
      · exact Or.inr ⟨sender, src, heard⟩
      · exact Or.inl (Or.inr (Or.inr ⟨round, before, was, kept⟩))
  | lock =>
    left
    unfold Recorded RoundState.lockHash at recorded
    split at recorded <;> exact recorded

theorem handleMsg_recorded (be : Backend P) (c : Core P) (payload : Bytes) {addr : Address}
    {m : Message} (recorded : Recorded (handleMsg be c payload).1 addr m) :
    Recorded c addr m ∨ addr = m.address ∧
      ∃ src, checkPayload be.crypto c.valSet payload = .ok (m, src) := by
  cases checked : checkPayload be.crypto c.valSet payload with
  | error err =>
    simp only [handleMsg, checked] at recorded
    exact Or.inl recorded
  | ok result =>
    obtain ⟨msg, src⟩ := result
    simp only [handleMsg, checked] at recorded
    have moves : MoveSeq (eventContext be c (.message payload)) c (handleCheckedMsg be c msg src).1 :=
      moves_handleCheckedMsg rfl (heard_message_iff.mpr checked)
    revert recorded
    refine kept_by_moves (fun d : Core P => Recorded d addr m → _) ?_ moves Or.inl
    intro a b move before recorded
    rcases recorded_of_move move recorded with was | ⟨sender, src', heard⟩
    · exact before was
    · exact Or.inr ⟨sender, src', checked ▸ heard_message_iff.mp heard⟩

end

/-! ## Signer and sender -/

theorem checkPayload_eq_ok_iff (crypto : Crypto) (valSet : ValidatorSet) (payload : Bytes)
    (msg : Message) (src : Address) :
    checkPayload crypto valSet payload = .ok (msg, src) ↔
      Message.ofPayload payload = some msg ∧ src = msg.address ∧
        msg.address ∈ valSet.validators ∧
        ∃ signer, signerOf crypto msg = some signer ∧ signer ∈ valSet.validators := by
  constructor
  · intro success
    simp only [checkPayload] at success
    split at success
    · cases success
    · rename_i decoded run
      obtain ⟨decoding, data, signer, written, recovery, member⟩ := fromPayload_eq_ok run
      split at success
      · cases success
      · rename_i idx val found
        cases success
        obtain ⟨named, listed⟩ := ValidatorSet.getByAddress_eq_some found
        refine ⟨decoding, named, listed, signer, ?_, member⟩
        rw [signerOf, written, Option.bind_some, recovery]
  · rintro ⟨decoding, rfl, listed, signer, recovery, member⟩
    obtain ⟨data, written, recovered⟩ := Option.bind_eq_some_iff.mp recovery
    have signed : ∃ idx val, valSet.getByAddress signer = some (idx, val) := by
      obtain ⟨⟨idx, val⟩, found⟩ := Option.isSome_iff_exists.mp
        ((ValidatorSet.getByAddress_isSome_iff valSet signer).mpr member)
      exact ⟨idx, val, found⟩
    obtain ⟨idx, val, signerFound⟩ := signed
    obtain ⟨⟨position, named⟩, found⟩ := Option.isSome_iff_exists.mp
      ((ValidatorSet.getByAddress_isSome_iff valSet msg.address).mpr listed)
    obtain ⟨rfl, _⟩ := ValidatorSet.getByAddress_eq_some found
    simp only [checkPayload, fromPayload, decoding, written, checkValidatorSignature, recovered,
      signerFound, found]

section
variable {P : Type} [Proposal P]

/-- A payload that `handleMsg` passes on was signed by the sender it names, and
whatever it records stands under the address of its signer. -/
def SenderAuthentic (be : Backend P) (c : Core P) (payload : Bytes) : Prop :=
  (∀ msg src, checkPayload be.crypto c.valSet payload = .ok (msg, src) →
    signerOf be.crypto msg = some msg.address ∧ src = msg.address) ∧
  ∀ addr m, Recorded (handleMsg be c payload).1 addr m →
    Recorded c addr m ∨ signerOf be.crypto m = some addr

/-- The signer and the named sender of a payload are two different validators. -/
def NamesAnotherValidator (crypto : Crypto) (valSet : ValidatorSet) (payload : Bytes) : Prop :=
  ∃ msg signer, Message.ofPayload payload = some msg ∧ signerOf crypto msg = some signer ∧
    signer ∈ valSet.validators ∧ msg.address ∈ valSet.validators ∧ signer ≠ msg.address

theorem NamesAnotherValidator.not_authentic {be : Backend P} {c : Core P} {payload : Bytes}
    (names : NamesAnotherValidator be.crypto c.valSet payload) : ¬ SenderAuthentic be c payload := by
  obtain ⟨msg, signer, decoding, recovery, member, listed, differ⟩ := names
  rintro ⟨authentic, _⟩
  obtain ⟨same, _⟩ := authentic msg msg.address
    ((checkPayload_eq_ok_iff _ _ _ _ _).mpr ⟨decoding, rfl, listed, signer, recovery, member⟩)
  rw [recovery] at same
  exact differ (Option.some.inj same)

theorem senderAuthentic_iff (be : Backend P) (c : Core P) (payload : Bytes) :
    SenderAuthentic be c payload ↔ ¬ NamesAnotherValidator be.crypto c.valSet payload := by
  constructor
  · intro authentic names
    exact names.not_authentic authentic
  · intro same
    have authentic : ∀ msg src, checkPayload be.crypto c.valSet payload = .ok (msg, src) →
        signerOf be.crypto msg = some msg.address ∧ src = msg.address := by
      intro msg src success
      obtain ⟨decoding, source, listed, signer, recovery, member⟩ :=
        (checkPayload_eq_ok_iff _ _ _ _ _).mp success
      have named : signer = msg.address := by
        by_contra differ
        exact same ⟨msg, signer, decoding, recovery, member, listed, differ⟩
      exact ⟨named ▸ recovery, source⟩
    refine ⟨authentic, ?_⟩
    intro addr m recorded
    rcases handleMsg_recorded be c payload recorded with was | ⟨rfl, src, success⟩
    · exact Or.inl was
    · exact Or.inr (authentic m src success).1

end

def preparedCore : Option (Core NumberedBlock) :=
  let be := chainBackend (sampleAddress 2) (⟨0, 0⟩, zeroAddress) []
  (start be (sampleAddress 2)).map fun c =>
    (handleMsg be c (samplePayload 1 1 msgPreprepare
      (.list [View.encodeRLP ⟨0, 1⟩, .list [writeUint 1, .bytes [7]]]) [])).1

def forgedPrepare : Bytes :=
  samplePayload 4 3 msgPrepare
    (Subject.encodeRLP ⟨⟨0, 1⟩, Proposal.hash (⟨1, 7⟩ : NumberedBlock)⟩) []

/-- The forged PREPARE is counted for validator 3, which never sent it. -/
theorem forgedPrepare_recorded_for_another : ∃ c, preparedCore = some c ∧
    ¬ SenderAuthentic (chainBackend (sampleAddress 2) (⟨0, 0⟩, zeroAddress) []) c forgedPrepare ∧
    c.current.prepares.get (sampleAddress 3) = none ∧
    ((handleMsg (chainBackend (sampleAddress 2) (⟨0, 0⟩, zeroAddress) []) c
      forgedPrepare).1.current.prepares.get (sampleAddress 3)).isSome = true := by
  have seen : preparedCore.any (fun c => decide (c.valSet.validators = sampleSet.validators ∧
      c.current.prepares.get (sampleAddress 3) = none ∧
      ((handleMsg (chainBackend (sampleAddress 2) (⟨0, 0⟩, zeroAddress) []) c
        forgedPrepare).1.current.prepares.get (sampleAddress 3)).isSome = true)) = true := by
    decide +kernel
  obtain ⟨c, run, seen⟩ := (Option.any_eq_true _ _).mp seen
  obtain ⟨members, before, after⟩ := of_decide_eq_true seen
  refine ⟨c, run, NamesAnotherValidator.not_authentic ?_, before, after⟩
  rw [NamesAnotherValidator, members]
  have named : (Message.ofPayload forgedPrepare).any (fun m => decide
      (m.address = sampleAddress 3 ∧ signerOf plainCrypto m = some (sampleAddress 4))) = true := by
    decide +kernel
  obtain ⟨msg, decoding, named⟩ := (Option.any_eq_true _ _).mp named
  obtain ⟨address, signer⟩ := of_decide_eq_true named
  refine ⟨msg, sampleAddress 4, decoding, signer, by decide +kernel, ?_, ?_⟩
  · rw [address]
    decide +kernel
  · rw [address]
    decide +kernel

end Linkeye.Dbft.Authenticity
