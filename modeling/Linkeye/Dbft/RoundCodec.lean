import Linkeye.Dbft.Seals

/-!
# The round state on the wire

`EncodeRLP` of `dbft/core/roundstate.go` writes a list of seven values and
`DecodeRLP` reads a struct with seven fields.  A struct decoder knows only the
exported fields, and two of the seven are not.
-/

set_option autoImplicit false

namespace Linkeye.Dbft.RoundCodec

open Common.Types Common.Signature Rlp.Encode Rlp.Decode Dbft.Types Round Handlers Seals

/-! ## Struct decoders -/

/-- `field` stands for the error of a field's own decoder with the context that
`addErrorContext` puts on it. -/
inductive DecodeError where
  | malformed
  | expectedList
  | tooFewElements
  | tooManyElements
  | field (name : String)
deriving DecidableEq

/-- A field as it is declared; its decoder sets it in a value of the struct. -/
structure Field (σ : Type) where
  name : String
  exported : Bool
  decoder : Item → Option (σ → σ)

section
variable {σ : Type}

def structFields (declared : List (Field σ)) : List (Field σ) := declared.filter Field.exported

/-- The loop over the fields and the `ListEnd` after it. -/
def decodeFields : List (Field σ) → List Item → σ → Except DecodeError σ
  | [], [], val => .ok val
  | [], _ :: _, _ => .error .tooManyElements
  | _ :: _, [], _ => .error .tooFewElements
  | f :: fields, item :: items, val =>
    match f.decoder item with
    | none => .error (.field f.name)
    | some set => decodeFields fields items (set val)

def makeStructDecoder (declared : List (Field σ)) : Item → σ → Except DecodeError σ
  | .bytes _, _ => .error .expectedList
  | .list items, val => decodeFields (structFields declared) items val

/-- A struct is read from a list with one element for each exported field. -/
theorem length_of_decodeFields (fields : List (Field σ)) :
    ∀ (items : List Item) (val read : σ),
      decodeFields fields items val = .ok read → items.length = fields.length := by
  induction fields with
  | nil =>
    intro items val read decoded
    cases items with
    | nil => rfl
    | cons item rest => simp [decodeFields] at decoded
  | cons f rest ih =>
    intro items val read decoded
    cases items with
    | nil => simp [decodeFields] at decoded
    | cons item others =>
      cases value : f.decoder item with
      | none => simp [decodeFields, value] at decoded
      | some set =>
        simp only [decodeFields, value] at decoded
        simp [ih others (set val) read decoded]

end

/-! ## The two methods -/

/-- None of the fields of `messageSet` is exported. -/
def messageSetFields : List (Field MessageSet) :=
  ["view", "valSet", "messagesMu", "messages"].map fun name => ⟨name, false, fun _ => none⟩

/-- So `makeStructWriter` finds nothing to write. -/
def writeMessageSet (_ : MessageSet) : Item := .list []

def zeroMessageSet : MessageSet := newMessageSet ⟨[], .roundRobin, none⟩

def decodeMessageSet (item : Item) : Option MessageSet :=
  (makeStructDecoder messageSetFields item zeroMessageSet).toOption

variable {P : Type} [Proposal P]

/-- `Request` has one field, and a nil pointer to a struct is an empty list. -/
def writeRequest : Option P → Option Item
  | none => some (.list [])
  | some proposal => (Proposal.encodeRLP proposal).map fun item => .list [item]

/-- A nil pre-prepare is dereferenced by its own `EncodeRLP`. -/
def encodeRLP (s : RoundState P) : Option Item := do
  let preprepare ← s.preprepare.bind Preprepare.encodeRLP
  let request ← writeRequest s.pendingRequest
  return .list [writeUint s.round, writeUint s.sequence, preprepare, writeMessageSet s.prepares,
    writeMessageSet s.commits, writeByteArray s.lockedHash, request]

/-- The struct that `DecodeRLP` declares.  The last decoder would find a nil interface. -/
def declared : List (Field (RoundState P)) :=
  [⟨"Round", true, fun item => (decodeBigInt item).map fun r s => { s with round := r }⟩,
    ⟨"Sequence", true, fun item => (decodeBigInt item).map fun n s => { s with sequence := n }⟩,
    ⟨"Preprepare", true, fun item =>
      (Preprepare.decodeRLP item).map fun pp s => { s with preprepare := some pp }⟩,
    ⟨"Prepares", true, fun item => (decodeMessageSet item).map fun ms s => { s with prepares := ms }⟩,
    ⟨"Commits", true, fun item => (decodeMessageSet item).map fun ms s => { s with commits := ms }⟩,
    ⟨"lockedHash", false, fun item =>
      (decodeByteArray 32 item).map fun hash s => { s with lockedHash := hash }⟩,
    ⟨"pendingRequest", false, fun _ => none⟩]

def decodeRLP (item : Item) : Except DecodeError (RoundState P) :=
  makeStructDecoder declared item ⟨0, 0, none, zeroMessageSet, zeroMessageSet, .zero 32, none⟩

def encodeRoundState (s : RoundState P) : Option Bytes := (encodeRLP s).bind encodeToBytes

def decodeRoundState (b : Bytes) : Except DecodeError (RoundState P) :=
  match decodeBytes b with
  | none => .error .malformed
  | some item => decodeRLP item

/-! ## No round state comes back -/

def Survives (s : RoundState P) : Prop :=
  ∃ b read, encodeRoundState s = some b ∧ decodeRoundState b = .ok read ∧
    read.round = s.round ∧ read.sequence = s.sequence ∧ read.preprepare = s.preprepare ∧
    read.prepares.messages = s.prepares.messages ∧ read.commits.messages = s.commits.messages ∧
    read.lockedHash = s.lockedHash ∧ read.pendingRequest = s.pendingRequest

theorem encodeRLP_eq_some {s : RoundState P} {item : Item} (written : encodeRLP s = some item) :
    ∃ items, item = .list items ∧ items.length = 7 := by
  simp only [encodeRLP, Option.bind_eq_bind, Option.bind_eq_some_iff] at written
  obtain ⟨preprepare, _, request, _, same⟩ := written
  cases same
  exact ⟨_, rfl, rfl⟩

theorem length_of_decodeRLP {items : List Item} {read : RoundState P}
    (decoded : decodeRLP (.list items) = .ok read) : items.length = 5 :=
  length_of_decodeFields _ items _ read decoded

/-- The writer puts seven elements into the list and the reader takes five. -/
theorem round_state_never_survives (s : RoundState P) : ¬ Survives s := by
  rintro ⟨b, read, written, decoded, _⟩
  obtain ⟨item, encoded, spelled⟩ := Option.bind_eq_some_iff.mp written
  obtain ⟨items, rfl, seven⟩ := encodeRLP_eq_some encoded
  rw [decodeRoundState, decodeBytes_encodeToBytes spelled] at decoded
  have five := length_of_decodeRLP decoded
  omega

/-- A node that has locked the proposal of its round. -/
def lockedRound : RoundState (HashedBlock plainCrypto) :=
  RoundState.lockHash
    (newRoundState ⟨1, 1⟩ sampleSet (.zero 32) (some ⟨⟨1, 1⟩, sampleBlock 1 1⟩)
      (some (sampleBlock 1 1)))

theorem lockedRound_refused :
    (encodeRoundState lockedRound).map (fun b =>
        (decodeRoundState (P := HashedBlock plainCrypto) b).map fun _ => ()) =
      some (.error .tooManyElements) ∧ ¬ Survives lockedRound := by
  have refused : (encodeRoundState lockedRound).map (fun b =>
      (decodeRoundState (P := HashedBlock plainCrypto) b).map fun _ => ()) =
        some (.error .tooManyElements) := by
    decide +kernel
  refine ⟨refused, ?_⟩
  rintro ⟨b, read, written, decoded, _⟩
  rw [written, Option.map_some, decoded] at refused
  cases refused

end Linkeye.Dbft.RoundCodec
