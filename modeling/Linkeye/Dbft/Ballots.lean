import Linkeye.Core.Stakes
import Linkeye.Dbft.Election
import Linkeye.Lib.Sorts

/-!
# What an election computes

The tally of `countVotes`, the records that `CommitScores` leaves behind and the
ranking, each by what it contains and not by the order in which the map was
visited or the list was sorted.
-/

set_option autoImplicit false

namespace Linkeye.Dbft.Ballots

open Common.Types Common.Signature Core.Dpos Core.Stakes Core.StateProcessor Election Lib.Sorts
open Std (ExtTreeMap)
open Rlp.Encode Rlp.Decode Trie.Contents

def score (dc : DposContext) (statedb : StateDB) (candidateAddr : Address) : Int :=
  ((delegatorsOf dc candidateAddr).map statedb.getBalance).sum

/-! ## The tally -/

variable {votes : ExtTreeMap Address Int} {a k : Address} {value : Bytes} {v : Int}
  {after middle : DposContext}

section
variable {dc : DposContext} {statedb : StateDB}

theorem addWeights_get (a b : Address) (delegators : List Address)
    (votes : ExtTreeMap Address Int) (some : delegators ≠ []) :
    (addWeights statedb a delegators votes)[b]? =
      if a = b then .some (votes.getD a 0 + (delegators.map statedb.getBalance).sum)
      else votes[b]? := by
  induction delegators generalizing votes with
  | nil => exact absurd rfl some
  | cons delegator rest ih =>
    rw [addWeights]
    by_cases last : rest = []
    · subst last
      simp only [addWeights, Lib.Maps.get_insert,
        List.map_cons, List.map_nil, List.sum_cons, List.sum_nil, add_zero]
    · rw [ih _ last]
      by_cases same : a = b
      · rw [if_pos same, if_pos same, ExtTreeMap.getD_insert_self, List.map_cons,
          List.sum_cons, add_assoc]
      · rw [if_neg same, if_neg same, Lib.Maps.get_insert, if_neg (by assumption)]

/-- The entry of a candidate that was read so many times. -/
def tallyOf (score : Int) (times : Nat) : Option Int :=
  if times = 0 then none else some (times * score)

theorem tallyOf_getD (score : Int) (times : Nat) : (tallyOf score times).getD 0 = times * score := by
  rw [tallyOf]
  split
  · rename_i none
    rw [none, Nat.cast_zero, zero_mul, Option.getD_none]
  · rfl

/-- Each time that a candidate is read its score is added once more. -/
theorem countCandidate_get {candidate : Bytes} {times : Nat}
    (before : votes[a]? = tallyOf (score dc statedb a) times) :
    (countCandidate dc statedb votes candidate)[a]? =
      tallyOf (score dc statedb a) (times + if decodedAddr candidate = a then 1 else 0) := by
  rw [countCandidate]
  by_cases same : decodedAddr candidate = a
  · subst same
    rw [if_pos rfl, tallyOf, if_neg (Nat.succ_ne_zero times), Nat.cast_succ, add_one_mul]
    cases found : delegatorsOf dc (decodedAddr candidate) with
    | nil =>
      rw [ExtTreeMap.getElem?_insert_self, score, found]
      simp
    | cons delegator rest =>
      rw [addWeights_get _ _ _ _ (List.cons_ne_nil _ _), if_pos rfl,
        ExtTreeMap.getD_eq_getD_getElem?, before, tallyOf_getD, ← found]
      rfl
  · rw [if_neg same, Nat.add_zero, ← before]
    cases delegatorsOf dc (decodedAddr candidate) with
    | nil =>
      rw [Lib.Maps.get_insert, if_neg same]
    | cons delegator rest =>
      rw [addWeights_get _ _ _ _ (List.cons_ne_nil _ _), if_neg same]

/-- How often the entries are read as the record of `a`. -/
def timesRead (entries : List (Bytes × Bytes)) (a : Address) : Nat :=
  (entries.map fun entry => decodedAddr entry.2).count a

theorem countAll_get (entries : List (Bytes × Bytes)) {times : Nat}
    (before : votes[a]? = tallyOf (score dc statedb a) times) :
    (entries.foldl (fun votes entry => countCandidate dc statedb votes entry.2) votes)[a]? =
      tallyOf (score dc statedb a) (times + timesRead entries a) := by
  induction entries generalizing votes times with
  | nil => exact before
  | cons entry rest ih =>
    rw [List.foldl_cons, ih (countCandidate_get before), timesRead, timesRead, List.map_cons,
      List.count_cons, Nat.add_assoc, Nat.add_comm (ite _ _ _)]
    simp only [beq_iff_eq]

theorem countVotes_get (counted : countVotes dc statedb = some votes) (a : Address) :
    votes[a]? = tallyOf (score dc statedb a) (timesRead dc.candidateTrie.nodeIterator a) := by
  rw [countVotes] at counted
  cases listed : dc.candidateTrie.nodeIterator with
  | nil => simp [listed] at counted
  | cons first rest =>
    rw [listed] at counted
    cases counted
    have fresh : (∅ : ExtTreeMap Address Int)[a]? = tallyOf (score dc statedb a) 0 :=
      ExtTreeMap.getElem?_empty
    rw [countAll_get (first :: rest) fresh, Nat.zero_add]

theorem countVotes_eq_none_iff :
    countVotes dc statedb = none ↔ dc.candidateTrie.nodeIterator = [] := by
  rw [countVotes]
  split <;> simp_all

/-- Every candidate once, with its score. -/
structure Tallied (dc : DposContext) (statedb : StateDB) (entries : List (Address × Int)) :
    Prop where
  distinct : (entries.map Prod.fst).Nodup
  complete : ∀ a v, (a, v) ∈ entries ↔ dc.IsCandidate a ∧ v = score dc statedb a

theorem Tallied.perm {entries entries' : List (Address × Int)}
    (tallied : Tallied dc statedb entries) (arranged : entries'.Perm entries) : Tallied dc statedb entries' where
  distinct := (arranged.map Prod.fst).nodup_iff.mpr tallied.distinct
  complete := fun a v => arranged.mem_iff.trans (tallied.complete a v)

theorem decodedAddr_of_holds {cc : CandidateContext} (holds : Holds value cc) :
    decodedAddr value = cc.addr := by
  obtain ⟨item, written, rfl⟩ := holds.written
  obtain ⟨_, _, rfl⟩ := encodeRLP_eq_some written
  have short := holds.short
  rw [encode, List.length_append] at short
  rw [decodedAddr, encode, readKind_puthead (.inr ⟨rfl, rfl, rfl⟩) (by omega)]
  dsimp only
  rw [if_neg (lt_irrefl _), List.take_length]
  have long : (encode (writeByteArray cc.addr)).length ≤
      (encodeItems [writeByteArray cc.addr, writeUint cc.state.toNat,
        .bytes (bigBytes cc.blockNumber.toNat), .bytes (bigBytes cc.score.toNat)]).length := by
    simp [encodeItems]
  rw [encodeItems, decodeValue_encode _ _ _ (by omega)]
  · simp only [decodeByteArray_writeByteArray, Option.getD_some]
  · rw [encodeItems] at long
    omega

section
variable (own : OwnRecords dc)
include own

theorem data_decodedAddr {key : Bytes}
    (stored : dc.candidateTrie.tryGet key = some value) : (decodedAddr value).data = key := by
  obtain ⟨cc, rfl, holds⟩ := own key value stored
  rw [decodedAddr_of_holds holds]

theorem mem_decodedAddrs (a : Address) :
    (a ∈ dc.candidateTrie.nodeIterator.map fun entry => decodedAddr entry.2) ↔
      dc.IsCandidate a := by
  rw [List.mem_map, DposContext.IsCandidate, Option.ne_none_iff_exists']
  constructor
  · rintro ⟨⟨key, value⟩, member, rfl⟩
    have stored := TrieMap.mem_nodeIterator.mp member
    exact ⟨value, by rw [data_decodedAddr own stored, stored]⟩
  · rintro ⟨value, stored⟩
    refine ⟨(a.data, value), TrieMap.mem_nodeIterator.mpr stored, ?_⟩
    exact FixedBytes.data_inj (data_decodedAddr own stored)

theorem nodup_decodedAddrs :
    (dc.candidateTrie.nodeIterator.map fun entry => decodedAddr entry.2).Nodup := by
  have keys : (dc.candidateTrie.nodeIterator.map fun entry => decodedAddr entry.2).map
      FixedBytes.data = dc.candidateTrie.nodeIterator.map Prod.fst := by
    rw [List.map_map]
    apply List.map_congr_left
    rintro ⟨key, value⟩ member
    exact data_decodedAddr own (TrieMap.mem_nodeIterator.mp member)
  apply List.Nodup.of_map FixedBytes.data
  rw [keys]
  exact TrieMap.distinct_nodeIterator _

theorem timesRead_of_own (a : Address) :
    timesRead dc.candidateTrie.nodeIterator a = 1 ↔ dc.IsCandidate a := by
  rw [← mem_decodedAddrs own, timesRead]
  exact ⟨fun once => List.count_pos_iff.mp (once ▸ Nat.one_pos),
    List.count_eq_one_of_mem (nodup_decodedAddrs own)⟩

theorem timesRead_of_not_candidate (absent : ¬ dc.IsCandidate a) :
    timesRead dc.candidateTrie.nodeIterator a = 0 :=
  List.count_eq_zero.mpr fun member => absent ((mem_decodedAddrs own a).mp member)

/-- Over own records the votes are a tally. -/
theorem countVotes_tallied (candidate : dc.IsCandidate a) (statedb : StateDB) :
    ∃ votes, countVotes dc statedb = some votes ∧ Tallied dc statedb votes.toList := by
  cases counted : countVotes dc statedb with
  | none =>
    have member := (mem_decodedAddrs own a).mpr candidate
    rw [countVotes_eq_none_iff.mp counted] at member
    cases member
  | some votes =>
    refine ⟨votes, rfl, ?_, ?_⟩
    · rw [ExtTreeMap.map_fst_toList_eq_keys]
      exact ExtTreeMap.nodup_keys
    · intro b v
      rw [ExtTreeMap.mem_toList_iff_getElem?_eq_some, countVotes_get counted]
      by_cases present : dc.IsCandidate b
      · rw [(timesRead_of_own own b).mpr present, tallyOf, if_neg one_ne_zero, Nat.cast_one, one_mul,
          Option.some.injEq]
        exact ⟨fun same => ⟨present, same.symm⟩, fun same => same.2.symm⟩
      · rw [timesRead_of_not_candidate own present, tallyOf, if_pos rfl]
        simp [present]

end

end

/-! ## The scores that are written back -/

/-- `value'` is the record in `value` with its score set to `v`. -/
def Rescored (value : Bytes) (v : Int) (value' : Bytes) : Prop :=
  ∃ cc item, Holds value cc ∧ ({ cc with score := v } : CandidateContext).encodeRLP = some item ∧
    value' = encode item

theorem Rescored.unique {first second : Bytes} (left : Rescored value v first)
    (right : Rescored value v second) : first = second := by
  obtain ⟨cc, item, holds, written, rfl⟩ := left
  obtain ⟨cc', item', holds', written', rfl⟩ := right
  have same : cc = cc' := Option.some.inj (holds.decodeRecord.symm.trans holds'.decodeRecord)
  rw [same] at written
  rw [Option.some.inj (written.symm.trans written')]

/-- `after` is `dc` with the scores written into the records they belong to. -/
structure Scored (dc : DposContext) (scores : List (Address × Int)) (after : DposContext) :
    Prop where
  only : DposContext.OnlyCandidates dc after
  written : ∀ k v, (k, v) ∈ scores → ∃ value value', dc.candidateTrie.tryGet k.data = some value ∧
    after.candidateTrie.tryGet k.data = some value' ∧ Rescored value v value'
  kept : ∀ key : Bytes, (∀ k v, (k, v) ∈ scores → k.data ≠ key) →
    after.candidateTrie.tryGet key = dc.candidateTrie.tryGet key

section
variable {dc : DposContext} {scores scores' : List (Address × Int)}

/-- Scores in another order leave the same context. -/
theorem Scored.unique {after' : DposContext} (first : Scored dc scores after)
    (second : Scored dc scores' after') (same : ∀ entry, entry ∈ scores ↔ entry ∈ scores') :
    after = after' := by
  have tries : after.candidateTrie = after'.candidateTrie := by
    apply TrieMap.ext_tryGet
    intro key
    by_cases mentioned : ∃ k v, (k, v) ∈ scores ∧ k.data = key
    · obtain ⟨k, v, member, rfl⟩ := mentioned
      obtain ⟨value, left, stored, leftStored, leftScored⟩ := first.written k v member
      obtain ⟨value', right, stored', rightStored, rightScored⟩ :=
        second.written k v ((same _).mp member)
      cases stored.symm.trans stored'
      rw [leftStored, rightStored, leftScored.unique rightScored]
    · have absent : ∀ k v, (k, v) ∈ scores → k.data ≠ key :=
        fun k v member equal => mentioned ⟨k, v, member, equal⟩
      have absent' : ∀ k v, (k, v) ∈ scores' → k.data ≠ key :=
        fun k v member => absent k v ((same _).mpr member)
      rw [first.kept key absent, second.kept key absent']
  rw [first.only, second.only, tries]

def OwnRecord (dc : DposContext) (k : Address) : Prop :=
  ∃ value cc, dc.candidateTrie.tryGet k.data = some value ∧ Holds value cc ∧ cc.addr = k

theorem ownRecord_of_own (own : OwnRecords dc) (candidate : dc.IsCandidate k) :
    OwnRecord dc k := by
  obtain ⟨cc, value, same, stored, holds⟩ := own.getCandidateContext candidate
  exact ⟨value, cc, stored, holds, same⟩

theorem commitScores_one (own : OwnRecord dc k) (nonneg : 0 ≤ v) (rest : List (Address × Int)) :
    ∃ middle, commitScores ((k, v) :: rest) dc = commitScores rest middle ∧
      Scored dc [(k, v)] middle := by
  obtain ⟨value, cc, stored, holds, rfl⟩ := own
  obtain ⟨item, written, _⟩ := holds.written
  have number := (encodeRLP_eq_some written).1
  obtain ⟨item', rewritten⟩ :
      ∃ item', ({ cc with score := v } : CandidateContext).encodeRLP = some item' := by
    simp [CandidateContext.encodeRLP, writeBigInt, not_lt.mpr number, not_lt.mpr nonneg]
  have found : dc.getCandidateContext cc.addr = .ok cc := by
    rw [DposContext.getCandidateContext, stored]
    simp only [holds.decodeRecord]
  refine ⟨(dc.setCandidateContext { cc with score := v }).1, ?_,
    DposContext.setCandidateContext_onlyCandidates dc _, ?_, ?_⟩
  · rw [commitScores, found]
    dsimp only
    rw [if_pos rfl, DposContext.setCandidateContext, rewritten]
  · intro b w member
    cases List.mem_singleton.mp member
    refine ⟨value, encode item', stored, ?_, cc, item', holds, rewritten, rfl⟩
    rw [tryGet_setCandidateContext rewritten, if_pos rfl]
  · intro key unmentioned
    rw [tryGet_setCandidateContext rewritten,
      if_neg (unmentioned cc.addr v (List.mem_singleton.mpr rfl))]

theorem Scored.cons (first : Scored dc [(k, v)] middle) (later : Scored middle scores after)
    (apart : ∀ b w, (b, w) ∈ scores → b ≠ k) : Scored dc ((k, v) :: scores) after where
  only := first.only.trans later.only
  written := by
    intro b w member
    rcases List.mem_cons.mp member with same | member
    · cases same
      obtain ⟨value, value', stored, final, rescored⟩ :=
        first.written k v (List.mem_singleton.mpr rfl)
      refine ⟨value, value', stored, ?_, rescored⟩
      rw [later.kept k.data fun c u member equal =>
        apart c u member (FixedBytes.data_inj equal), final]
    · obtain ⟨value, value', stored, final, rescored⟩ := later.written b w member
      refine ⟨value, value', ?_, final, rescored⟩
      rw [← stored, first.kept]
      intro c u only equal
      cases List.mem_singleton.mp only
      exact apart b w member (FixedBytes.data_inj equal).symm
  kept := by
    intro key unmentioned
    rw [later.kept key fun c u member => unmentioned c u (List.mem_cons_of_mem _ member),
      first.kept key]
    intro c u only
    cases List.mem_singleton.mp only
    exact unmentioned k v List.mem_cons_self

theorem OwnRecord.after_one {b : Address} (own : OwnRecord dc b) (first : Scored dc [(k, v)] middle)
    (apart : b ≠ k) :
    OwnRecord middle b := by
  obtain ⟨value, cc, stored, holds, same⟩ := own
  refine ⟨value, cc, ?_, holds, same⟩
  rw [← stored, first.kept]
  intro c u only equal
  cases List.mem_singleton.mp only
  exact apart (FixedBytes.data_inj equal).symm

theorem ne_of_nodup_cons {b : Address} {w : Int} (distinct : k ∉ scores.map Prod.fst)
    (member : (b, w) ∈ scores) : b ≠ k := by
  rintro rfl
  exact distinct (List.mem_map.mpr ⟨(b, w), member, rfl⟩)

/-- `CommitScores` goes through where every score belongs to an own record. -/
theorem commitScores_scored (distinct : (scores.map Prod.fst).Nodup)
    (ready : ∀ k v, (k, v) ∈ scores → 0 ≤ v ∧ OwnRecord dc k) :
    ∃ after, commitScores scores dc = (after, none) ∧ Scored dc scores after := by
  induction scores generalizing dc with
  | nil => exact ⟨dc, rfl, DposContext.OnlyCandidates.refl dc, by simp, fun _ _ => rfl⟩
  | cons entry rest ih =>
    obtain ⟨k, v⟩ := entry
    rw [List.map_cons, List.nodup_cons] at distinct
    obtain ⟨nonneg, own⟩ := ready k v List.mem_cons_self
    obtain ⟨middle, step, first⟩ := commitScores_one own nonneg rest
    -- the records of the scores still to come are those of before
    have ready' : ∀ b w, (b, w) ∈ rest → 0 ≤ w ∧ OwnRecord middle b := by
      intro b w member
      obtain ⟨nonneg, own⟩ := ready b w (List.mem_cons_of_mem _ member)
      exact ⟨nonneg, own.after_one first (ne_of_nodup_cons distinct.1 member)⟩
    obtain ⟨after, run, later⟩ := ih distinct.2 ready'
    exact ⟨after, step.trans run,
      first.cons later fun b w member => ne_of_nodup_cons distinct.1 member⟩

theorem nonneg_of_commitScores (distinct : (scores.map Prod.fst).Nodup)
    (own : ∀ k v, (k, v) ∈ scores → OwnRecord dc k) (run : commitScores scores dc = (after, none)) :
    ∀ k v, (k, v) ∈ scores → 0 ≤ v := by
  induction scores generalizing dc with
  | nil => simp
  | cons entry rest ih =>
    obtain ⟨k, v⟩ := entry
    rw [List.map_cons, List.nodup_cons] at distinct
    have ownFirst := own k v List.mem_cons_self
    have nonneg : 0 ≤ v := by
      obtain ⟨value, cc, stored, holds, same⟩ := ownFirst
      obtain ⟨cc', found, ⟨_, middle, written, _⟩ | ⟨other, _⟩⟩ := commitScores_cons run
      · cases encoded : ({ cc' with score := v } : CandidateContext).encodeRLP with
        | none => simp [DposContext.setCandidateContext, encoded] at written
        | some item => exact (encodeRLP_eq_some encoded).2.1
      · rw [DposContext.getCandidateContext, stored] at found
        simp only [holds.decodeRecord, Except.ok.injEq] at found
        exact absurd same (found ▸ other)
    obtain ⟨middle, step, first⟩ := commitScores_one ownFirst nonneg rest
    have later := ih distinct.2
      (fun b w member => (own b w (List.mem_cons_of_mem _ member)).after_one first
        (ne_of_nodup_cons distinct.1 member)) (step.symm.trans run)
    intro b w member
    rcases List.mem_cons.mp member with same | member
    · cases same
      exact nonneg
    · exact later b w member

/-- Scores leave own records behind, if a slice can hold them. -/
theorem Scored.ownRecords (scored : Scored dc scores after) (own : OwnRecords dc)
    (short : ShortRecords after) : OwnRecords after := by
  intro key value final
  by_cases mentioned : ∃ k v, (k, v) ∈ scores ∧ k.data = key
  · obtain ⟨k, v, member, rfl⟩ := mentioned
    obtain ⟨old, value', stored, final', cc, item, holds, written, rfl⟩ := scored.written k v member
    obtain ⟨cc', key, holds'⟩ := own k.data old stored
    have same : cc = cc' := Option.some.inj (holds.decodeRecord.symm.trans holds'.decodeRecord)
    subst same
    cases final.symm.trans final'
    exact ⟨{ cc with score := v }, key, ⟨item, written, rfl⟩, short _ _ final⟩
  · have absent : ∀ k v, (k, v) ∈ scores → k.data ≠ key :=
      fun k v member equal => mentioned ⟨k, v, member, equal⟩
    rw [scored.kept key absent] at final
    exact own key value final

end

/-! ## The ranking -/

section
variable {keccak : Bytes → Hash}

instance : Std.Total (ranksBefore keccak) where
  total a b := by
    rcases lt_trichotomy a.2 b.2 with less | same | more
    · exact .inr (.inl less)
    · by_cases before : (compare (addressString keccak a.1) (addressString keccak b.1)).isLE = true
      · exact .inl (.inr ⟨same.symm, before⟩)
      · exact .inr (.inr ⟨same, Ordering.isLE_of_eq_lt (Std.OrientedCmp.lt_of_not_isLE before)⟩)
    · exact .inl (.inl more)

instance : IsTrans (Address × Int) (ranksBefore keccak) where
  trans a b c first second := by
    rcases first with more | ⟨same, before⟩
    · rcases second with more' | ⟨same', _⟩
      · exact .inl (lt_trans more' more)
      · exact .inl (same' ▸ more)
    · rcases second with more' | ⟨same', before'⟩
      · exact .inl (same ▸ more')
      · exact .inr ⟨same'.trans same, Std.TransOrd.isLE_trans before before'⟩

def Outranks (keccak : Bytes → Hash) (weight : Address → Int) (a b : Address) : Prop :=
  weight b < weight a ∨ (weight b = weight a ∧
    compare (addressString keccak a) (addressString keccak b) = .lt)

/-- `tryElect` with any procedure for `sort.Sort`. -/
def tryElectBy (sorting : Sorting (ranksBefore keccak)) (maxValidatorSize : Nat)
    (commitOrder rankOrder : MapOrder) (dc : DposContext) (statedb : StateDB) :
    DposContext × Option ElectError :=
  match countVotes dc statedb with
  | none => (dc, some .noCandidates)
  | some votes =>
    match commitScores (commitOrder.visit votes.toList) dc with
    | (dc, some e) => (dc, some (.commitScores e))
    | (dc, none) =>
      let candidates := rankOrder.visit votes.toList
      if candidates.length < safeSize then (dc, some .tooFewCandidates)
      else (setElected dc ((sorting.sort candidates).take maxValidatorSize), none)

/-- Equal ranks are equal addresses: no two addresses print alike. -/
theorem fst_eq_of_ranksBefore {a b : Address × Int} (first : ranksBefore keccak a b)
    (second : ranksBefore keccak b a) : a.1 = b.1 := by
  rcases first with more | ⟨same, before⟩
  · rcases second with less | ⟨same, _⟩
    · omega
    · omega
  · rcases second with less | ⟨_, after⟩
    · omega
    · exact addressString_injective keccak (Std.LawfulEqOrd.eq_of_compare
        (Std.OrientedCmp.isLE_antisymm before after))

structure Ranking (keccak : Bytes → Hash) (dc : DposContext) (statedb : StateDB)
    (ranked : List Address) : Prop where
  distinct : ranked.Nodup
  complete : ∀ a, a ∈ ranked ↔ dc.IsCandidate a
  ordered : ranked.Pairwise (Outranks keccak (score dc statedb))

section
variable {dc : DposContext} {statedb : StateDB} {entries : List (Address × Int)}

theorem Tallied.eq_of_ranksBefore (tallied : Tallied dc statedb entries) {a b : Address × Int}
    (left : a ∈ entries) (right : b ∈ entries) (first : ranksBefore keccak a b)
    (second : ranksBefore keccak b a) : a = b := by
  have same := fst_eq_of_ranksBefore first second
  have leftScore := ((tallied.complete a.1 a.2).mp left).2
  have rightScore := ((tallied.complete b.1 b.2).mp right).2
  exact Prod.ext same (by rw [leftScore, rightScore, same])

theorem Tallied.ranking (tallied : Tallied dc statedb entries)
    (sorting : Sorting (ranksBefore keccak)) :
    Ranking keccak dc statedb ((sorting.sort entries).map Prod.fst) := by
  have sorted := tallied.perm (sorting.perm entries)
  refine ⟨sorted.distinct, ?_, ?_⟩
  · intro a
    rw [List.mem_map]
    constructor
    · rintro ⟨⟨b, v⟩, member, rfl⟩
      exact ((sorted.complete b v).mp member).1
    · intro candidate
      exact ⟨(a, score dc statedb a), (sorted.complete a _).mpr ⟨candidate, rfl⟩, rfl⟩
  · have apart : (sorting.sort entries).Pairwise fun a b => a.1 ≠ b.1 :=
      List.pairwise_map.mp sorted.distinct
    rw [List.pairwise_map]
    refine ((sorting.pairwise entries).and apart).imp_of_mem ?_
    rintro ⟨a, v⟩ ⟨b, w⟩ left right ⟨before, differ⟩
    obtain ⟨_, rfl⟩ := (sorted.complete a v).mp left
    obtain ⟨_, rfl⟩ := (sorted.complete b w).mp right
    rcases before with more | ⟨same, before⟩
    · exact .inl more
    · refine .inr ⟨same, ?_⟩
      rcases Ordering.isLE_iff_eq_lt_or_eq_eq.mp before with less | equal
      · exact less
      · exact absurd (addressString_injective keccak (Std.LawfulEqOrd.eq_of_compare equal)) differ

/-- The steps of an election over own records that goes through. -/
theorem tryElect_scored {maxValidatorSize : Nat} {commitOrder rankOrder : MapOrder}
    (own : OwnRecords dc)
    (elected : tryElect keccak maxValidatorSize commitOrder rankOrder dc statedb = (after, none)) :
    ∃ scores middle, Tallied dc statedb scores ∧ Scored dc scores middle ∧
      after = setElected middle
        (electedFrom keccak maxValidatorSize (rankOrder.visit scores)) := by
  obtain ⟨votes, middle, counted, committed, rfl⟩ := tryElect_eq_none elected
  have present : ∃ a, dc.IsCandidate a := by
    rw [countVotes] at counted
    cases listed : dc.candidateTrie.nodeIterator with
    | nil => simp [listed] at counted
    | cons first rest =>
      refine ⟨decodedAddr first.2, (mem_decodedAddrs own _).mp ?_⟩
      rw [listed]
      exact List.mem_cons_self
  obtain ⟨a, candidate⟩ := present
  obtain ⟨votes', counted', tallied⟩ := countVotes_tallied own candidate statedb
  cases counted.symm.trans counted'
  have arranged := commitOrder.perm votes.toList
  have visited := tallied.perm arranged
  have ownRecord : ∀ k v, (k, v) ∈ commitOrder.visit votes.toList → OwnRecord dc k :=
    fun k v member => ownRecord_of_own own ((visited.complete k v).mp member).1
  have nonneg := nonneg_of_commitScores visited.distinct ownRecord committed
  obtain ⟨after, run, scored⟩ := commitScores_scored visited.distinct
    fun k v member => ⟨nonneg k v member, ownRecord k v member⟩
  cases run.symm.trans committed
  refine ⟨votes.toList, _, tallied, ?_, rfl⟩
  exact ⟨scored.only, fun k v member => scored.written k v (arranged.mem_iff.mpr member),
    fun key absent => scored.kept key fun k v member => absent k v (arranged.mem_iff.mp member)⟩

structure Elected (keccak : Bytes → Hash) (maxValidatorSize : Nat) (dc : DposContext)
    (statedb : StateDB) (after : DposContext) : Prop where
  validators : ∃ ranked, Ranking keccak dc statedb ranked ∧
    after.getValidators = some (ranked.take maxValidatorSize)
  records : ∀ a, dc.IsCandidate a → ∃ cc item, dc.getCandidateContext a = .ok cc ∧
    ({ cc with score := score dc statedb a } : CandidateContext).encodeRLP = some item ∧
      after.candidateTrie.tryGet a.data = some (encode item)
  absent : ∀ key, dc.candidateTrie.tryGet key = none → after.candidateTrie.tryGet key = none
  votes : KeepsVotes dc after

theorem score_nonneg (solvent : ∀ a, 0 ≤ statedb.getBalance a) (a : Address) :
    0 ≤ score dc statedb a := by
  apply List.sum_nonneg
  intro weight member
  obtain ⟨delegator, _, rfl⟩ := List.mem_map.mp member
  exact solvent delegator

/-- The scores of a tally are written, in any order, with one result. -/
theorem Tallied.commitScores (tallied : Tallied dc statedb entries) (own : OwnRecords dc)
    (solvent : ∀ a, 0 ≤ statedb.getBalance a) :
    ∃ after, Scored dc entries after ∧
      ∀ visited : List (Address × Int), visited.Perm entries →
        Election.commitScores visited dc = (after, none) := by
  have ready : ∀ k v, (k, v) ∈ entries → 0 ≤ v ∧ OwnRecord dc k := by
    intro k v member
    obtain ⟨candidate, rfl⟩ := (tallied.complete k v).mp member
    exact ⟨score_nonneg solvent k, ownRecord_of_own own candidate⟩
  obtain ⟨after, _, scored⟩ := commitScores_scored tallied.distinct ready
  refine ⟨after, scored, fun visited arranged => ?_⟩
  have ready' : ∀ k v, (k, v) ∈ visited → 0 ≤ v ∧ OwnRecord dc k :=
    fun k v member => ready k v (arranged.mem_iff.mp member)
  obtain ⟨after', run, scored'⟩ := commitScores_scored (tallied.perm arranged).distinct ready'
  rw [run, scored'.unique scored fun _ => arranged.mem_iff]

theorem Scored.elected {maxValidatorSize : Nat} (scored : Scored dc entries middle)
    (tallied : Tallied dc statedb entries) (few : maxValidatorSize ≤ 11)
    (sorting : Sorting (ranksBefore keccak)) :
    Elected keccak maxValidatorSize dc statedb
      (setElected middle ((sorting.sort entries).take maxValidatorSize)) where
  validators := by
    refine ⟨_, tallied.ranking sorting, ?_⟩
    rw [getValidators_setElected, List.map_take]
    exact (List.length_take_le _ _).trans few
  records := by
    intro a candidate
    obtain ⟨value, value', stored, final, cc, item, holds, written, rfl⟩ :=
      scored.written a _ ((tallied.complete a _).mpr ⟨candidate, rfl⟩)
    refine ⟨cc, item, ?_, written, ?_⟩
    · rw [DposContext.getCandidateContext, stored]
      simp only [holds.decodeRecord]
    · rw [setElected_candidateTrie, final]
  absent := by
    intro key missing
    rw [setElected_candidateTrie, scored.kept key, missing]
    rintro k v member rfl
    exact ((tallied.complete k v).mp member).1 missing
  votes := (keepsVotes_of_onlyCandidates scored.only).trans (setElected_keepsVotes _ _)

/-- Over records stored under their own addresses, one context comes out of the
election, whatever the orders of the maps and the sort. -/
theorem election_determined_by_ledger (keccak : Bytes → Hash) {maxValidatorSize : Nat}
    (few : maxValidatorSize ≤ 11) {dc : DposContext} {statedb : StateDB} (own : OwnRecords dc)
    (present : ∃ a, dc.IsCandidate a) (solvent : ∀ a, 0 ≤ statedb.getBalance a) :
    ∃ after, Elected keccak maxValidatorSize dc statedb after ∧
      ∀ (sorting : Sorting (ranksBefore keccak)) (commitOrder rankOrder : MapOrder),
        tryElectBy sorting maxValidatorSize commitOrder rankOrder dc statedb = (after, none) := by
  obtain ⟨a, candidate⟩ := present
  obtain ⟨votes, counted, tallied⟩ := countVotes_tallied own candidate statedb
  obtain ⟨middle, scored, commits⟩ := tallied.commitScores own solvent
  refine ⟨_, scored.elected tallied few (Sorting.insertion _), ?_⟩
  intro sorting commitOrder rankOrder
  have nonempty : ¬ (rankOrder.visit votes.toList).length < safeSize := by
    have member := (rankOrder.perm votes.toList).mem_iff.mpr
      ((tallied.complete a _).mpr ⟨candidate, rfl⟩)
    have positive := List.length_pos_of_mem member
    rw [safeSize]
    omega
  have ranked : sorting.sort (rankOrder.visit votes.toList) =
      (Sorting.insertion (ranksBefore keccak)).sort votes.toList := by
    apply Sorting.sort_eq _ _ (rankOrder.perm _)
    intro a left b right
    exact (tallied.perm (rankOrder.perm _)).eq_of_ranksBefore left right
  simp only [tryElectBy, counted, commits _ (commitOrder.perm _), if_neg nonempty, ranked]

end

end

def twoCandidates : DposContext :=
  let first := newDposContext.setCandidateContext ⟨bytesToAddress [1], .loginState, 3, 0⟩
  let second := first.1.setCandidateContext ⟨bytesToAddress [2], .logoutState, 4, 0⟩
  { second.1 with
    delegateTrie := TrieMap.empty.tryUpdate
      ((bytesToAddress [2]).data ++ (bytesToAddress [9]).data) (bytesToAddress [9]).data }

def nineHasFive : StateDB := ⟨(∅ : ExtTreeMap Address Int).insert (bytesToAddress [9]) 5, []⟩

theorem nineHasFive_solvent (a : Address) : 0 ≤ nineHasFive.getBalance a := by
  rw [StateDB.getBalance, nineHasFive, ExtTreeMap.getD_insert]
  split
  · decide
  · rw [ExtTreeMap.getD_empty]

theorem ownRecords_twoCandidates : OwnRecords twoCandidates := by
  have first := ownRecords_new.setCandidateContext ⟨bytesToAddress [1], .loginState, 3, 0⟩
    (by decide +kernel)
  have second := first.setCandidateContext ⟨bytesToAddress [2], .logoutState, 4, 0⟩
    (by decide +kernel)
  exact second.congr rfl

theorem election_determined_twoCandidates :
    OwnRecords twoCandidates ∧
      ∃ after, Elected plainCrypto.keccak256 11 twoCandidates nineHasFive after ∧
        ∀ (sorting : Sorting (ranksBefore plainCrypto.keccak256)) (commitOrder rankOrder : MapOrder),
          tryElectBy sorting 11 commitOrder rankOrder twoCandidates nineHasFive = (after, none) := by
  have present : ∃ a, twoCandidates.IsCandidate a :=
    ⟨bytesToAddress [1], by rw [DposContext.IsCandidate]; decide +kernel⟩
  exact ⟨ownRecords_twoCandidates, election_determined_by_ledger plainCrypto.keccak256 (le_refl 11)
    ownRecords_twoCandidates present nineHasFive_solvent⟩

def misfiled : DposContext :=
  let value := (newDposContext.setCandidateContext
    ⟨bytesToAddress [2], .loginState, 3, 0⟩).1.candidateTrie.tryGet (bytesToAddress [2]).data
  { newDposContext with
    candidateTrie := (TrieMap.empty.tryUpdate (bytesToAddress [1]).data (value.getD [])).tryUpdate
      (bytesToAddress [3]).data (value.getD []) }

/-- Two candidates, and the only validator is neither of them. -/
theorem misfiled_records_elect_a_stranger :
    misfiled.IsCandidate (bytesToAddress [1]) ∧ misfiled.IsCandidate (bytesToAddress [3]) ∧
      ∃ after, (∀ a, 0 ≤ nineHasFive.getBalance a) ∧
        tryElectBy (Sorting.insertion (ranksBefore plainCrypto.keccak256)) 11 inKeyOrder inKeyOrder
          misfiled nineHasFive = (after, none) ∧
        after.getValidators = some [bytesToAddress [2]] ∧
        ¬ misfiled.IsCandidate (bytesToAddress [2]) ∧
        ¬ Elected plainCrypto.keccak256 11 misfiled nineHasFive after := by
  have stranger : ¬ misfiled.IsCandidate (bytesToAddress [2]) := by
    rw [DposContext.IsCandidate]
    decide +kernel
  have validators : (tryElectBy (Sorting.insertion (ranksBefore plainCrypto.keccak256)) 11
      inKeyOrder inKeyOrder misfiled nineHasFive).1.getValidators = some [bytesToAddress [2]] := by
    decide +kernel
  refine ⟨?_, ?_, _, nineHasFive_solvent, ?_, validators, stranger, ?_⟩
  · rw [DposContext.IsCandidate]
    decide +kernel
  · rw [DposContext.IsCandidate]
    decide +kernel
  · exact Prod.ext rfl (by decide +kernel)
  · rintro ⟨⟨ranked, ranking, stored⟩, _⟩
    rw [validators, Option.some.injEq] at stored
    have member : bytesToAddress [2] ∈ ranked.take 11 := by
      rw [← stored]
      exact List.mem_singleton.mpr rfl
    exact stranger ((ranking.complete _).mp (List.mem_of_mem_take member))

end Linkeye.Dbft.Ballots
