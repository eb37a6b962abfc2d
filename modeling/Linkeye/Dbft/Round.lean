import Linkeye.Dbft.Types

/-!
# Message sets and the round state

`message_set.go`, `roundstate.go` and the container of `roundchange.go`.  A Go
map is an extensional tree map.  A message set keeps with it what `Add`
guarantees: a message is stored under its own address, and that address is a
validator's.
-/

set_option autoImplicit false

namespace Linkeye.Dbft.Round

open Std Common.Types Dbft.Types Validator

/-! ## Message sets -/

structure MessageSet where
  valSet : ValidatorSet
  messages : ExtTreeMap Address Message
  verified : ∀ (addr : Address) (m : Message), messages[addr]? = some m →
    m.address = addr ∧ addr ∈ valSet.validators

def newMessageSet (valSet : ValidatorSet) : MessageSet where
  valSet := valSet
  messages := ∅
  verified := by
    intro addr m stored
    rw [ExtTreeMap.getElem?_empty] at stored
    cases stored

namespace MessageSet

def verify (ms : MessageSet) (msg : Message) : Option Err :=
  if (ms.valSet.getByAddress msg.address).isSome then none else some .unauthorizedAddress

theorem verify_eq_none {ms : MessageSet} {msg : Message} (passed : ms.verify msg = none) :
    msg.address ∈ ms.valSet.validators := by
  unfold verify at passed
  split at passed
  · rename_i found
    exact (ValidatorSet.getByAddress_isSome_iff _ _).mp found
  · cases passed

def addVerifiedMessage (ms : MessageSet) (msg : Message) (passed : ms.verify msg = none) :
    MessageSet where
  valSet := ms.valSet
  messages := ms.messages.insert msg.address msg
  verified := by
    intro addr m stored
    rw [ExtTreeMap.getElem?_insert] at stored
    split at stored
    · rename_i same
      cases stored
      exact ⟨LawfulEqOrd.eq_of_compare same,
        LawfulEqOrd.eq_of_compare same ▸ verify_eq_none passed⟩
    · exact ms.verified addr m stored

def add (ms : MessageSet) (msg : Message) : Except Err MessageSet :=
  match passed : ms.verify msg with
  | some err => .error err
  | none => .ok (ms.addVerifiedMessage msg passed)

/-- `Values`, in the order of the addresses; the order of a Go map is chosen
where the values are used. -/
def values (ms : MessageSet) : List Message := ms.messages.toList.map Prod.snd

def size (ms : MessageSet) : Nat := ms.messages.size

def get (ms : MessageSet) (addr : Address) : Option Message := ms.messages[addr]?

def senders (ms : MessageSet) : Finset Address := ms.messages.keys.toFinset

theorem mem_senders (ms : MessageSet) (addr : Address) :
    addr ∈ ms.senders ↔ ∃ m, ms.get addr = some m := by
  rw [senders, List.mem_toFinset, ExtTreeMap.mem_keys,
    ExtTreeMap.mem_iff_isSome_getElem?, Option.isSome_iff_exists]
  rfl

theorem card_senders (ms : MessageSet) : ms.senders.card = ms.size := by
  rw [senders, List.toFinset_card_of_nodup ExtTreeMap.nodup_keys, ExtTreeMap.length_keys]
  rfl

theorem mem_values (ms : MessageSet) (m : Message) :
    m ∈ ms.values ↔ ms.get m.address = some m := by
  simp only [values, List.mem_map]
  constructor
  · rintro ⟨⟨addr, stored⟩, member, rfl⟩
    rw [ExtTreeMap.mem_toList_iff_getElem?_eq_some] at member
    rw [(ms.verified addr stored member).1]
    exact member
  · intro stored
    exact ⟨(m.address, m), ExtTreeMap.mem_toList_iff_getElem?_eq_some.mpr stored, rfl⟩

theorem values_addresses (ms : MessageSet) :
    ms.values.map Message.address = ms.messages.keys := by
  rw [← ExtTreeMap.map_fst_toList_eq_keys, values, List.map_map]
  apply List.map_congr_left
  rintro ⟨addr, stored⟩ member
  exact (ms.verified addr stored (ExtTreeMap.mem_toList_iff_getElem?_eq_some.mp member)).1

@[simp] theorem get_newMessageSet (valSet : ValidatorSet) (addr : Address) :
    (newMessageSet valSet).get addr = none :=
  ExtTreeMap.getElem?_empty

theorem add_eq_ok {ms added : MessageSet} {msg : Message} (success : ms.add msg = .ok added) :
    added.valSet = ms.valSet ∧
      ∀ addr m, added.get addr = some m → m = msg ∧ addr = msg.address ∨ ms.get addr = some m := by
  unfold add at success
  split at success
  · cases success
  · rename_i passed
    cases success
    refine ⟨rfl, ?_⟩
    intro addr m stored
    simp only [get, addVerifiedMessage, ExtTreeMap.getElem?_insert] at stored
    split at stored
    · rename_i same
      cases stored
      exact Or.inl ⟨rfl, (LawfulEqOrd.eq_of_compare same).symm⟩
    · exact Or.inr stored

end MessageSet

/-! ## The round state -/

structure RoundState (P : Type) where
  round : Nat
  sequence : Nat
  preprepare : Option (Preprepare P)
  prepares : MessageSet
  commits : MessageSet
  lockedHash : Hash
  pendingRequest : Option P

def newRoundState {P : Type} (view : View) (validatorSet : ValidatorSet) (lockedHash : Hash)
    (preprepare : Option (Preprepare P)) (pendingRequest : Option P) : RoundState P where
  round := view.round
  sequence := view.sequence
  preprepare := preprepare
  prepares := newMessageSet validatorSet
  commits := newMessageSet validatorSet
  lockedHash := lockedHash
  pendingRequest := pendingRequest

namespace RoundState
variable {P : Type} [Proposal P]

def view (s : RoundState P) : View := ⟨s.round, s.sequence⟩

/-- Every sender of a PREPARE or a COMMIT is counted once. -/
def getPrepareOrCommitSize (s : RoundState P) : Nat :=
  s.prepares.size + s.commits.size -
    (s.prepares.values.countP fun m => (s.commits.get m.address).isSome)

def proposal (s : RoundState P) : Option P := s.preprepare.map Preprepare.proposal

def subject (s : RoundState P) : Option Subject :=
  s.preprepare.map fun pp => ⟨s.view, Proposal.hash pp.proposal⟩

def setPreprepare (s : RoundState P) (preprepare : Preprepare P) : RoundState P :=
  { s with preprepare := some preprepare }

def lockHash (s : RoundState P) : RoundState P :=
  match s.preprepare with
  | some pp => { s with lockedHash := Proposal.hash pp.proposal }
  | none => s

def unlockHash (s : RoundState P) : RoundState P :=
  { s with lockedHash := FixedBytes.zero 32 }

def isHashLocked (hasBadProposal : Hash → Bool) (s : RoundState P) : Bool :=
  if emptyHash s.lockedHash then false else !hasBadProposal s.lockedHash

end RoundState

/-! ## Round change sets -/

/-- The map is keyed by `Uint64()` of the round. -/
structure RoundChangeSet where
  validatorSet : ValidatorSet
  roundChanges : ExtTreeMap Nat MessageSet

def newRoundChangeSet (valSet : ValidatorSet) : RoundChangeSet := ⟨valSet, ∅⟩

namespace RoundChangeSet

/-- The set of the round stays in the map when the message is refused. -/
def add (rcs : RoundChangeSet) (r : Nat) (msg : Message) : RoundChangeSet × Except Err Nat :=
  let round := r % 2 ^ 64
  let found := rcs.roundChanges[round]?.getD (newMessageSet rcs.validatorSet)
  match found.add msg with
  | .error err => ({ rcs with roundChanges := rcs.roundChanges.insert round found }, .error err)
  | .ok added =>
    ({ rcs with roundChanges := rcs.roundChanges.insert round added }, .ok added.size)

def clear (rcs : RoundChangeSet) (round : Nat) : RoundChangeSet :=
  { rcs with
    roundChanges := rcs.roundChanges.filter fun k rms =>
      !(rms.values.isEmpty || decide (k < round % 2 ^ 64)) }

/-- A key from `2 ^ 63` on turns negative in `int64(k)`. -/
def maxRound (rcs : RoundChangeSet) (num : Int) : Option Int :=
  rcs.roundChanges.toList.foldl
    (fun best entry =>
      if (entry.2.size : Int) < num then best
      else
        let r := Int.bmod entry.1 (2 ^ 64)
        match best with
        | none => some r
        | some b => if b < r then some r else best)
    none

end RoundChangeSet

end Linkeye.Dbft.Round
