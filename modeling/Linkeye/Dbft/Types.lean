import Linkeye.Common.Signature
import Linkeye.Dbft.Validator
import Linkeye.Rlp.Decode

/-!
# Views, subjects and consensus messages

The messages of `dbft/types.go` and `dbft/core/types.go` with their RLP forms.
A decoded big integer is never negative, so rounds and sequences are natural
numbers.  A proposal is any type with the methods of the Go interface.
-/

set_option autoImplicit false

namespace Linkeye.Dbft.Types

open Common.Types Common.Signature Rlp.Encode Rlp.Decode Validator

class Proposal (P : Type) where
  number : P → Nat
  hash : P → Hash
  encodeRLP : P → Option Item
  decodeRLP : Item → Option P

structure View where
  round : Nat
  sequence : Nat
deriving DecidableEq

namespace View

def cmp (v y : View) : Ordering :=
  if v.sequence ≠ y.sequence then compare v.sequence y.sequence
  else if v.round ≠ y.round then compare v.round y.round
  else .eq

theorem cmp_eq_lt_iff (v y : View) :
    v.cmp y = .lt ↔ v.sequence < y.sequence ∨ v.sequence = y.sequence ∧ v.round < y.round := by
  unfold cmp
  split
  · rename_i differ
    rw [Nat.compare_eq_lt]
    omega
  · split
    · rw [Nat.compare_eq_lt]
      omega
    · simp only [reduceCtorEq, false_iff]
      omega

theorem cmp_eq_gt_iff (v y : View) :
    v.cmp y = .gt ↔ y.sequence < v.sequence ∨ v.sequence = y.sequence ∧ y.round < v.round := by
  unfold cmp
  split
  · rw [Nat.compare_eq_gt]
    omega
  · split
    · rw [Nat.compare_eq_gt]
      omega
    · simp only [reduceCtorEq, false_iff]
      omega

theorem eq_of_cmp {v y : View} (notLess : v.cmp y ≠ .lt) (notMore : v.cmp y ≠ .gt) : v = y := by
  rw [Ne, cmp_eq_lt_iff] at notLess
  rw [Ne, cmp_eq_gt_iff] at notMore
  cases v
  cases y
  simp only [mk.injEq] at *
  omega

def encodeRLP (v : View) : Item := .list [writeUint v.round, writeUint v.sequence]

def decodeRLP : Item → Option View
  | .list [round, sequence] =>
    match decodeBigInt round, decodeBigInt sequence with
    | some r, some s => some ⟨r, s⟩
    | _, _ => none
  | _ => none

theorem decodeRLP_encodeRLP (v : View) : decodeRLP v.encodeRLP = some v := by
  simp only [encodeRLP, decodeRLP, writeUint, decodeBigInt_bigBytes]

end View

structure Subject where
  view : View
  digest : Hash
deriving DecidableEq

namespace Subject

def encodeRLP (s : Subject) : Item := .list [s.view.encodeRLP, writeByteArray s.digest]

def decodeRLP : Item → Option Subject
  | .list [view, digest] =>
    match View.decodeRLP view, decodeByteArray 32 digest with
    | some v, some d => some ⟨v, d⟩
    | _, _ => none
  | _ => none

theorem decodeRLP_encodeRLP (s : Subject) : decodeRLP s.encodeRLP = some s := by
  simp only [encodeRLP, decodeRLP, View.decodeRLP_encodeRLP, decodeByteArray_writeByteArray]

end Subject

structure Preprepare (P : Type) where
  view : View
  proposal : P

namespace Preprepare
variable {P : Type} [Proposal P]

def encodeRLP (b : Preprepare P) : Option Item :=
  (Proposal.encodeRLP b.proposal).map fun proposal => .list [b.view.encodeRLP, proposal]

def decodeRLP : Item → Option (Preprepare P)
  | .list [view, proposal] =>
    match View.decodeRLP view, Proposal.decodeRLP proposal with
    | some v, some p => some ⟨v, p⟩
    | _, _ => none
  | _ => none

end Preprepare

/-! ## Messages -/

inductive State where
  | acceptRequest
  | preprepared
  | prepared
  | committed
deriving DecidableEq

def State.toNat : State → Nat
  | .acceptRequest => 0
  | .preprepared => 1
  | .prepared => 2
  | .committed => 3

def State.cmp (s y : State) : Ordering := compare s.toNat y.toNat

def msgPreprepare : UInt64 := 0
def msgPrepare : UInt64 := 1
def msgCommit : UInt64 := 2
def msgRoundChange : UInt64 := 3

structure Message where
  code : UInt64
  msg : Bytes
  address : Address
  signature : Bytes
  committedSeal : Bytes
deriving DecidableEq

namespace Message

def encodeRLP (m : Message) : Item :=
  .list [writeUint m.code.toNat, .bytes m.msg, writeByteArray m.address, .bytes m.signature,
    .bytes m.committedSeal]

def decodeRLP : Item → Option Message
  | .list [code, msg, address, signature, committedSeal] =>
    match decodeUint 64 code, decodeByteSlice msg, decodeByteArray 20 address,
        decodeByteSlice signature, decodeByteSlice committedSeal with
    | some c, some m, some a, some sig, some committed =>
      some ⟨UInt64.ofNat c, m, a, sig, committed⟩
    | _, _, _, _, _ => none
  | _ => none

def payload (m : Message) : Option Bytes := encodeToBytes m.encodeRLP

def payloadNoSig (m : Message) : Option Bytes := payload { m with signature := [] }

def decode (m : Message) : Option Item := decodeBytes m.msg

def decodeSubject (m : Message) : Option Subject := m.decode.bind Subject.decodeRLP

def decodePreprepare {P : Type} [Proposal P] (m : Message) : Option (Preprepare P) :=
  m.decode.bind Preprepare.decodeRLP

/-- `rlp.DecodeBytes(b, &m)`, the first step of `FromPayload`. -/
def ofPayload (b : Bytes) : Option Message := (decodeBytes b).bind decodeRLP

theorem decodeSubject_encoded {m : Message} {s : Subject}
    (written : encodeToBytes s.encodeRLP = some m.msg) : m.decodeSubject = some s := by
  rw [decodeSubject, decode, decodeBytes_encodeToBytes written, Option.bind_some,
    Subject.decodeRLP_encodeRLP]

end Message

/-! ## Signatures -/

inductive Err where
  | inconsistentSubject
  | notFromProposer
  | ignored
  | futureMessage
  | oldMessage
  | invalidMessage
  | failedDecodePreprepare
  | failedDecodePrepare
  | failedDecodeCommit
  | unauthorizedAddress
  | decodePayload
  | signature
  | verify
  | futureBlock
deriving DecidableEq

def checkValidatorSignature (crypto : Crypto) (valSet : ValidatorSet) (data sig : Bytes) :
    Except Err Address :=
  match getSignatureAddress crypto data sig with
  | none => .error .signature
  | some signer =>
    match valSet.getByAddress signer with
    | some (_, val) => .ok val
    | none => .error .unauthorizedAddress

/-- `FromPayload` with `checkValidatorSignature` as the validation function. -/
def fromPayload (crypto : Crypto) (valSet : ValidatorSet) (b : Bytes) : Except Err Message :=
  match Message.ofPayload b with
  | none => .error .decodePayload
  | some m =>
    match m.payloadNoSig with
    | none => .error .decodePayload
    | some data =>
      match checkValidatorSignature crypto valSet data m.signature with
      | .error err => .error err
      | .ok _ => .ok m

def prepareCommittedSeal (hash : Hash) : Bytes := hash.data ++ [UInt8.ofNat msgCommit.toNat]

theorem checkValidatorSignature_eq_ok {crypto : Crypto} {valSet : ValidatorSet}
    {data sig : Bytes} {signer : Address}
    (success : checkValidatorSignature crypto valSet data sig = .ok signer) :
    getSignatureAddress crypto data sig = some signer ∧ signer ∈ valSet.validators := by
  simp only [checkValidatorSignature] at success
  split at success
  · cases success
  · rename_i recovered recovery
    split at success
    · rename_i idx val found
      obtain ⟨rfl, member⟩ := ValidatorSet.getByAddress_eq_some found
      cases success
      exact ⟨recovery, member⟩
    · cases success

theorem fromPayload_eq_ok {crypto : Crypto} {valSet : ValidatorSet} {b : Bytes} {m : Message}
    (success : fromPayload crypto valSet b = .ok m) :
    Message.ofPayload b = some m ∧ ∃ data signer, m.payloadNoSig = some data ∧
      getSignatureAddress crypto data m.signature = some signer ∧
      signer ∈ valSet.validators := by
  simp only [fromPayload] at success
  split at success
  · cases success
  · rename_i decoded decoding
    split at success
    · cases success
    · rename_i data written
      split at success
      · cases success
      · rename_i signer checked
        cases success
        obtain ⟨recovery, member⟩ := checkValidatorSignature_eq_ok checked
        exact ⟨decoding, data, signer, written, recovery, member⟩

end Linkeye.Dbft.Types
