import Linkeye.Dpos.Seals

/-!
# How often a dpos signer may sign

Along a chain of accepted headers the context of a block knows every recent
signer of the epoch, whether it is built from the headers or taken from the
cache.  Two blocks of one signer are then at least a window apart, except that
no test is made in the blocks below the window.
-/

set_option autoImplicit false

namespace Linkeye.Dpos.SigningRate

open Common.Types Common.Signature Consensus.Fields Consensus.Recents Consensus.Heights
open Std (ExtTreeMap)
open Core.Blocks Core.Dpos
open Dbft.Headers (num TrieDB)
open Headers Seals Rlp.Encode Trie.Contents

/-! ## Chains of accepted headers -/

def push (chain : Chain) (h : Header) : Chain := { chain with blocks := h :: chain.blocks }

/-- The nodes that take accepted headers one by one.  The tries a node has may be
others at each step; `Prepare`, `JudgeTx` and `Seal` look contexts up in between.
Of the hash function it is asked that it tells the headers of the chain apart. -/
inductive Run (e : SealEngine) : Node → Prop where
  | genesis (genesis : Header) (zero : num genesis = 0) : Run e ⟨⟨genesis, [], zero⟩, ∅⟩
  | look {node : Node} (db : TrieDB) (h parent : Header) (run : Run e node) (later : num h ≠ 0)
      (found : getHeader e.crypto node.chain h.parentHash (num h - 1) = some parent) :
      Run e (epochContext e db node (num h - 1) h.parentHash parent).1
  | accept {node : Node} (db : TrieDB) (h : Header) (parents : List Header) (run : Run e node)
      (valid : verifyHeader e.toEngine node.chain h parents = .ok ())
      (sealed : (verifySeal e db node h []).2 = .ok ())
      (distinct : ∀ g ∈ node.chain.headers, g.hash e.crypto = h.hash e.crypto → g = h) :
      Run e ⟨push node.chain h, (verifySeal e db node h []).1.recents⟩

/-- `b` is `g` or an ancestor of it. -/
inductive Above (crypto : Crypto) (chain : Chain) : Header → Header → Prop where
  | self (g : Header) : Above crypto chain g g
  | parent {g p b : Header} (member : p ∈ chain.headers) (hash : p.hash crypto = g.parentHash)
      (number : num p + 1 = num g) (above : Above crypto chain p b) : Above crypto chain g b

variable {hash : Hash} {recents : ExtTreeMap Nat Address} {signer : Address}

section
variable {e : SealEngine} {crypto : Crypto} {chain : Chain} {g b h : Header}

theorem Above.num_le (above : Above crypto chain g b) : num b ≤ num g := by
  induction above with
  | self g => exact le_refl _
  | parent _ _ number _ ih => omega

theorem Above.mem (above : Above crypto chain g b) (member : g ∈ chain.headers) :
    b ∈ chain.headers := by
  induction above with
  | self g => exact member
  | parent inside _ _ _ ih => exact ih inside

/-- The headers of a chain: told apart by their hashes, and linked down to genesis. -/
structure Linked (e : SealEngine) (chain : Chain) : Prop where
  distinct : ∀ a ∈ chain.headers, ∀ b ∈ chain.headers,
    a.hash e.crypto = b.hash e.crypto → a = b
  parent : ∀ h ∈ chain.blocks, ∃ p ∈ chain.headers,
    p.hash e.crypto = h.parentHash ∧ num p + 1 = num h
  own : ∀ h ∈ chain.blocks, ecrecover e.toEngine h = .ok h.coinbase

theorem mem_blocks_of_pos (member : g ∈ chain.headers) (positive : 0 < num g) :
    g ∈ chain.blocks := by
  rcases List.mem_append.mp member with block | last
  · exact block
  · rw [List.mem_singleton] at last
    rw [last, chain.genesis_num] at positive
    exact absurd positive (lt_irrefl 0)

theorem getHeaderByHash_eq_some (linked : Linked e chain) (member : g ∈ chain.headers)
    (same : g.hash e.crypto = hash) :
    getHeaderByHash e.crypto chain hash = some g := by
  rw [getHeaderByHash]
  cases found : chain.headers.find? fun h => decide (h.hash e.crypto = hash) with
  | none =>
    have missed := List.find?_eq_none.mp found g member
    simp only [decide_eq_true_eq] at missed
    exact absurd same missed
  | some first =>
    have hit := List.find?_some found
    simp only [decide_eq_true_eq] at hit
    rw [linked.distinct first (List.mem_of_find?_eq_some found) g member (hit.trans same.symm)]

theorem getHeader_eq_some {number : Nat} (found : getHeader crypto chain hash number = some g) :
    g ∈ chain.headers ∧ g.hash crypto = hash ∧ num g = number := by
  rw [getHeader] at found
  have hit := List.find?_some found
  simp only [decide_eq_true_eq] at hit
  exact ⟨List.mem_of_find?_eq_some found, hit⟩

/-- A new header is nobody's ancestor. -/
theorem Above.of_push (linked : Linked e chain)
    (distinct : ∀ g ∈ chain.headers, g.hash e.crypto = h.hash e.crypto → g = h)
    (member : g ∈ chain.headers) (above : Above e.crypto (push chain h) g b) :
    Above e.crypto chain g b := by
  induction above with
  | self g => exact .self g
  | @parent g p b inside hash number _ ih =>
    obtain ⟨old, oldMember, oldHash, _⟩ :=
      linked.parent g (mem_blocks_of_pos member (by omega))
    have same : p ∈ chain.headers := by
      rcases List.mem_cons.mp inside with new | known
      · have again := distinct old oldMember (by rw [oldHash, ← hash, new])
        rw [new, ← again]
        exact oldMember
      · exact known
    exact .parent same hash number (ih same)

end

/-! ## The walk finds every recent signer -/

section
variable {e : SealEngine} {chain : Chain} {limit : Nat}

def WithinEpoch (epoch low high : Nat) : Prop := ∀ m, low ≤ m → m ≤ high → m % epoch ≠ 0

theorem walk_keeps (fuel : Nat) (cur : Header) {found : ExtTreeMap Nat Address}
    (linked : Linked e chain) (member : cur ∈ chain.headers)
    (walked : walk e.crypto chain e.epoch limit fuel cur recents = .ok found) (seen : Nat)
    (later : num cur < seen) : found[seen]? = recents[seen]? := by
  induction fuel generalizing cur recents with
  | zero =>
    rw [walk] at walked
    split at walked
    · cases walked
    · cases walked
      rfl
  | succ fuel ih =>
    rw [walk] at walked
    split at walked
    · rename_i on
      obtain ⟨p, pMember, pHash, pNumber⟩ :=
        linked.parent cur (mem_blocks_of_pos member on.1)
      rw [getHeaderByHash_eq_some linked pMember pHash] at walked
      rw [ih p pMember walked (by omega), Lib.Maps.get_insert, if_neg (by omega)]
    · cases walked
      rfl

/-- The walk has one entry for each block it has passed, so it comes to every
ancestor that is less than a window away and in the same epoch. -/
theorem walk_covers {start : Nat} (fuel : Nat) (cur : Header) {found : ExtTreeMap Nat Address}
    {b : Header} (linked : Linked e chain) (member : cur ∈ chain.headers)
    (size : recents.size + num cur = start) (passed : ∀ seen : Nat, seen ∈ recents → num cur < seen)
    (walked : walk e.crypto chain e.epoch limit fuel cur recents = .ok found)
    (above : Above e.crypto chain cur b) (positive : 0 < num b)
    (within : WithinEpoch e.epoch (num b) (num cur)) (near : start < num b + limit) :
    found[num b]? = some b.coinbase := by
  have le := above.num_le
  have on : walksOn e.epoch limit cur recents :=
    ⟨by omega, by omega, within (num cur) le (le_refl _)⟩
  induction fuel generalizing cur recents with
  | zero =>
    rw [walk, if_pos on] at walked
    cases walked
  | succ fuel ih =>
    rw [walk, if_pos on] at walked
    obtain ⟨p, pMember, pHash, pNumber⟩ := linked.parent cur (mem_blocks_of_pos member on.1)
    rw [getHeaderByHash_eq_some linked pMember pHash] at walked
    cases above with
    | self =>
      rw [walk_keeps fuel p linked pMember walked _ (by omega)]
      exact ExtTreeMap.getElem?_insert_self
    | @parent _ q _ qMember qHash qNumber below =>
      have same : q = p := linked.distinct q qMember p pMember (qHash.trans pHash.symm)
      subst same
      have lower := below.num_le
      have fresh : ¬ recents.contains (num cur) = true := by
        rw [ExtTreeMap.contains_iff_mem]
        exact fun known => absurd (passed _ known) (lt_irrefl _)
      have grown : (recents.insert (num cur) cur.coinbase).size + num q = start := by
        rw [ExtTreeMap.size_insert, if_neg fresh]
        omega
      have passedOn : ∀ seen : Nat, seen ∈ recents.insert (num cur) cur.coinbase →
          num q < seen := by
        intro seen known
        rcases ExtTreeMap.mem_insert.mp known with here | before
        · rw [← Std.compare_eq_iff_eq.mp here]
          omega
        · have := passed seen before
          omega
      have withinOn : WithinEpoch e.epoch (num b) (num q) :=
        fun m low high => within m low (by omega)
      exact ih q pMember grown passedOn walked below withinOn lower
        ⟨by omega, by omega, withinOn (num q) lower (le_refl _)⟩

end

/-! ## Contexts -/

section
variable {e : SealEngine} {chain : Chain} {c : EpochContext} {g h : Header}

/-- The context knows the recent signers of `g` and its ancestors. -/
def Covers (e : SealEngine) (chain : Chain) (c : EpochContext) (g : Header) : Prop :=
  ∀ b, Above e.crypto chain g b → 0 < num b → WithinEpoch e.epoch (num b) (num g) →
    num g < num b + c.limit → c.recents[num b]? = some b.coinbase

theorem covers_buildContext {db : TrieDB} {number : Nat} {header : Header} (linked : Linked e chain)
    (member : g ∈ chain.headers) (same : g.hash e.crypto = hash)
    (built : buildContext e db chain number hash header = .ok c) :
    c.hash = hash ∧ Covers e chain c g := by
  rw [buildContext] at built
  split at built
  · cases built
  · split at built
    · cases built
    · rename_i fresh created
      rw [getHeaderByHash_eq_some linked member same] at built
      dsimp only at built
      split at built
      · cases built
      · rename_i recents walked
        cases built
        rw [newEpochContext] at created
        split at created
        · cases created
        · cases created
          refine ⟨rfl, fun b above positive within near => ?_⟩
          refine walk_covers (num g) g linked member ?_ ?_ walked above positive within near
          · rw [ExtTreeMap.size_empty, Nat.zero_add]
          · exact fun seen known => absurd known ExtTreeMap.not_mem_empty

/-- Every cached context is that of a header of the chain. -/
def CacheCovers (e : SealEngine) (node : Node) : Prop :=
  ∀ (hash : Hash) (c : EpochContext), node.recents[hash]? = some c →
    ∃ g ∈ node.chain.headers, g.hash e.crypto = hash ∧ Covers e node.chain c g

/-- What a lookup gives, and what it leaves in the cache. -/
theorem covers_epochContext (db : TrieDB) {node : Node} (number : Nat) (header : Header)
    (linked : Linked e node.chain) (cached : CacheCovers e node) (member : g ∈ node.chain.headers)
    (same : g.hash e.crypto = hash) :
    (epochContext e db node number hash header).1.chain = node.chain ∧
      CacheCovers e (epochContext e db node number hash header).1 ∧
      ∀ c, (epochContext e db node number hash header).2 = .ok c → Covers e node.chain c g := by
  rw [epochContext]
  cases held : node.recents[hash]? with
  | some c =>
    refine ⟨rfl, cached, ?_⟩
    rintro _ ⟨⟩
    obtain ⟨known, knownMember, knownHash, covers⟩ := cached hash c held
    rw [← linked.distinct known knownMember g member (knownHash.trans same.symm)]
    exact covers
  | none =>
    cases built : buildContext e db node.chain number hash header with
    | error err =>
      refine ⟨rfl, cached, ?_⟩
      rintro _ ⟨⟩
    | ok c =>
      obtain ⟨own, covers⟩ := covers_buildContext linked member same built
      refine ⟨rfl, ?_, ?_⟩
      · intro other d found
        rw [Lib.Maps.get_insert] at found
        split at found
        · rename_i equal
          cases found
          rw [own] at equal
          exact ⟨g, member, same.trans equal, covers⟩
        · exact cached other d found
      · rintro _ ⟨⟩
        exact covers

theorem Covers.push (linked : Linked e chain)
    (distinct : ∀ g ∈ chain.headers, g.hash e.crypto = h.hash e.crypto → g = h)
    (member : g ∈ chain.headers) (covers : Covers e chain c g) : Covers e (push chain h) c g :=
  fun b above => covers b (above.of_push linked distinct member)

end

/-! ## Accepted headers -/

section
variable {e : SealEngine} {db : TrieDB} {node : Node} {h parent : Header} {c : EpochContext}

theorem verifyHeader_own {chain : Chain} {parents : List Header}
    (valid : verifyHeader e.toEngine chain h parents = .ok ()) :
    ecrecover e.toEngine h = .ok h.coinbase := by
  simp only [verifyHeader, bind, Except.bind] at valid
  cases fields : verifyFields e.toEngine h with
  | error err =>
    rw [fields] at valid
    cases valid
  | ok _ =>
    rw [fields] at valid
    cases recovered : ecrecover e.toEngine h with
    | error err =>
      rw [recovered] at valid
      cases valid
    | ok signer =>
      rw [recovered] at valid
      by_cases other : signer ≠ h.coinbase
      · simp only [if_pos other] at valid
        cases valid
      · rw [not_not.mp other]

/-- What an accepted seal has been checked against. -/
structure SealedBy (e : SealEngine) (db : TrieDB) (node : Node) (h parent : Header)
    (c : EpochContext) : Prop where
  later : num h ≠ 0
  found : getHeader e.crypto node.chain h.parentHash (num h - 1) = some parent
  context : (epochContext e db node (num h - 1) h.parentHash parent).2 = .ok c
  checked : checkSeal e c h parent = .ok ()

theorem verifySeal_eq_ok (sealed : (verifySeal e db node h []).2 = .ok ()) :
    ∃ parent c, SealedBy e db node h parent c ∧
      (verifySeal e db node h []).1 = (epochContext e db node (num h - 1) h.parentHash parent).1 := by
  rw [verifySeal] at sealed ⊢
  by_cases zero : num h = 0
  · rw [if_pos zero] at sealed
    cases sealed
  · rw [if_neg zero] at sealed ⊢
    rw [sealParent, parentOf] at sealed ⊢
    cases found : getHeader e.crypto node.chain h.parentHash (num h - 1) with
    | none =>
      rw [found] at sealed
      cases sealed
    | some parent =>
      obtain ⟨_, same, number⟩ := getHeader_eq_some found
      have linked : ¬ (num parent ≠ num h - 1 ∨ parent.hash e.crypto ≠ h.parentHash) := by
        rintro (other | other)
        · exact other number
        · exact other same
      rw [found] at sealed
      simp only [if_neg linked] at sealed ⊢
      cases context : epochContext e db node (num h - 1) h.parentHash parent with
      | mk after result =>
        rw [context] at sealed
        cases result with
        | error err => cases sealed
        | ok c =>
          refine ⟨parent, c, ⟨zero, found, ?_, sealed⟩, ?_⟩
          · rw [context]
          · rw [context]

theorem sealedBy_of_accepted (accepted : (verifySeal e db node h []).2 = .ok ())
    (found : getHeader e.crypto node.chain h.parentHash (num h - 1) = some parent)
    (context : (epochContext e db node (num h - 1) h.parentHash parent).2 = .ok c) :
    SealedBy e db node h parent c := by
  obtain ⟨used, d, sealed, _⟩ := verifySeal_eq_ok accepted
  have same : used = parent := Option.some.inj (sealed.found.symm.trans found)
  subst same
  have equal : d = c := Except.ok.inj (sealed.context.symm.trans context)
  subst equal
  exact sealed

theorem SealedBy.allowed (sealed : SealedBy e db node h parent c)
    (own : ecrecover e.toEngine h = .ok signer) :
    signer ∈ c.signers ∧ refuses c.recents c.limit (num h) signer = false := by
  have checked := sealed.checked
  rw [checkSeal, own] at checked
  dsimp only at checked
  by_cases stranger : signer ∉ c.signers
  · rw [if_pos stranger] at checked
    cases checked
  · rw [if_neg stranger] at checked
    by_cases refused : refuses c.recents c.limit (num h) signer = true
    · rw [if_pos refused] at checked
      cases checked
    · exact ⟨not_not.mp stranger, Bool.eq_false_iff.mpr refused⟩

/-- `Seal` of an allowed signer gets to its own test. -/
theorem SealedBy.sealBlock_waits_iff (sealed : SealedBy e db node h parent c)
    (own : ecrecover e.toEngine h = .ok signer) (signFn : Hash → Option Bytes) {txs : Nat}
    (busy : ¬ (e.period = 0 ∧ txs = 0)) :
    (sealBlock e db node signer signFn h txs).2 = .ok .waits ↔
      waits c.recents c.limit (num h) signer = true := by
  obtain ⟨member, _⟩ := sealed.allowed own
  have context := sealed.context
  rw [sealBlock, if_neg sealed.later, if_neg busy, sealed.found]
  dsimp only
  cases looked : epochContext e db node (num h - 1) h.parentHash parent with
  | mk after result =>
    rw [looked] at context
    cases context
    simp only [if_neg (not_not.mpr member)]
    by_cases wait : waits c.recents c.limit (num h) signer = true
    · simp only [wait, if_true]
    · rw [if_neg wait]
      refine ⟨fun outcome => ?_, fun waiting => absurd waiting wait⟩
      cases signed : signFn (sigHash e.toEngine h) with
      | none | some =>
        rw [signed] at outcome
        cases outcome

end

/-! ## Runs -/

section
variable {e : SealEngine} {db : TrieDB} {node : Node} {h parent b : Header} {c : EpochContext}

theorem Linked.push (linked : Linked e node.chain) (member : parent ∈ node.chain.headers)
    (same : parent.hash e.crypto = h.parentHash) (number : num parent + 1 = num h)
    (own : ecrecover e.toEngine h = .ok h.coinbase)
    (distinct : ∀ g ∈ node.chain.headers, g.hash e.crypto = h.hash e.crypto → g = h) :
    Linked e (push node.chain h) where
  distinct := by
    intro a left b right equal
    rcases List.mem_cons.mp left with rfl | left
    · rcases List.mem_cons.mp right with rfl | right
      · rfl
      · exact (distinct b right equal.symm).symm
    · rcases List.mem_cons.mp right with rfl | right
      · exact distinct a left equal
      · exact linked.distinct a left b right equal
  parent := by
    intro g block
    rcases List.mem_cons.mp block with rfl | block
    · exact ⟨parent, List.mem_cons_of_mem _ member, same, number⟩
    · obtain ⟨p, pMember, rest⟩ := linked.parent g block
      exact ⟨p, List.mem_cons_of_mem _ pMember, rest⟩
  own := List.forall_mem_cons.mpr ⟨own, linked.own⟩

theorem Run.sound (run : Run e node) : Linked e node.chain ∧ CacheCovers e node := by
  induction run with
  | genesis genesis zero =>
    refine ⟨⟨?_, ?_, ?_⟩, ?_⟩
    · intro a left b right _
      rw [List.mem_singleton.mp left, List.mem_singleton.mp right]
    · exact fun _ block => absurd block List.not_mem_nil
    · exact fun _ block => absurd block List.not_mem_nil
    · intro hash c found
      rw [ExtTreeMap.getElem?_empty] at found
      cases found
  | look db h parent _ later found ih =>
    obtain ⟨linked, cached⟩ := ih
    obtain ⟨member, same, _⟩ := getHeader_eq_some found
    obtain ⟨chain, covers, _⟩ := covers_epochContext db (num h - 1) parent linked cached
      member same
    rw [chain]
    exact ⟨linked, covers⟩
  | @accept node db h parents _ valid sealed distinct ih =>
    obtain ⟨linked, cached⟩ := ih
    obtain ⟨parent, c, checked, after⟩ := verifySeal_eq_ok sealed
    obtain ⟨member, same, number⟩ := getHeader_eq_some checked.found
    have later := checked.later
    obtain ⟨chain, covers, _⟩ := covers_epochContext db (num h - 1) parent linked cached
      member same
    refine ⟨linked.push member same (by omega) (verifyHeader_own valid) distinct, ?_⟩
    intro hash d found
    rw [after] at found
    obtain ⟨g, gMember, gHash, gCovers⟩ := covers hash d found
    rw [chain] at gMember gCovers
    exact ⟨g, List.mem_cons_of_mem _ gMember, gHash, gCovers.push linked distinct gMember⟩

theorem withinEpoch_of_between {epoch k low high : Nat} (lower : k * epoch < low)
    (upper : high < (k + 1) * epoch) : WithinEpoch epoch low high := by
  intro m ge le zero
  obtain ⟨q, rfl⟩ := Nat.dvd_of_mod_eq_zero zero
  have above : k < q := by
    by_contra small
    have : epoch * q ≤ k * epoch := by
      rw [Nat.mul_comm epoch q]
      exact Nat.mul_le_mul_right epoch (not_lt.mp small)
    omega
  have : (k + 1) * epoch ≤ epoch * q := by
    rw [Nat.mul_comm epoch q]
    exact Nat.mul_le_mul_right epoch above
  omega

theorem num_lt (h : Header) : num h < 2 ^ 64 := Nat.mod_lt _ (by decide)

/-- A signer that is not refused is a window away from its last block, or the
window does not fit below the block at all. -/
theorem far_iff_of_not_refuses {limit i j : Nat} (small : j < 2 ^ 64) (before : i < j)
    (positive : 0 < i) (recorded : j ≤ i + limit → recents[i]? = some signer)
    (passed : refuses recents limit j signer = false) : limit ≤ j - i ↔ limit ≤ j := by
  refine ⟨fun far => by omega, fun fits => ?_⟩
  by_contra near
  have bound := refuses_eq_false_iff.mp passed i (recorded (by omega))
  rw [sub64_of_le fits small] at bound
  omega

/-- Two blocks of one signer inside an epoch are a window apart exactly when the
later one is not among the first blocks; and exactly there, for a signer that
the context has seen, `Seal` would have waited with a block that passes. -/
theorem signing_rate_iff (run : Run e node) {signer : Address}
    (accepted : (verifySeal e db node h []).2 = .ok ())
    (found : getHeader e.crypto node.chain h.parentHash (num h - 1) = some parent)
    (context : (epochContext e db node (num h - 1) h.parentHash parent).2 = .ok c)
    (own : ecrecover e.toEngine h = .ok signer) :
    (∀ b k, Above e.crypto node.chain parent b → ecrecover e.toEngine b = .ok signer →
      k * e.epoch < num b → num h < (k + 1) * e.epoch →
      (c.signers.size / 2 + 1 ≤ num h - num b ↔ c.signers.size / 2 + 1 ≤ num h)) ∧
    ∀ signFn txs, ¬ (e.period = 0 ∧ txs = 0) →
      ((sealBlock e db node signer signFn h txs).2 = .ok .waits ↔
        num h < c.signers.size / 2 + 1 ∧ signer ∈ c.recents.values) := by
  obtain ⟨linked, cached⟩ := run.sound
  obtain ⟨member, same, number⟩ := getHeader_eq_some found
  have sealed := sealedBy_of_accepted accepted found context
  obtain ⟨_, passed⟩ := sealed.allowed own
  constructor
  · intro b k above bOwn lower upper
    have le := above.num_le
    have coinbase : b.coinbase = signer :=
      Except.ok.inj ((linked.own b (mem_blocks_of_pos (above.mem member) (by omega))).symm.trans bOwn)
    obtain ⟨_, _, covers⟩ := covers_epochContext db (num h - 1) parent linked cached
      member same
    refine far_iff_of_not_refuses (num_lt h) (by omega) (by omega) (fun near => ?_) passed
    rw [← coinbase]
    have close : num parent < num b + c.limit := by
      rw [EpochContext.limit]
      omega
    exact covers c context b above (by omega) (withinEpoch_of_between lower (by omega)) close
  · intro signFn txs busy
    rw [sealed.sealBlock_waits_iff own signFn busy]
    exact waits_iff_of_not_refuses passed

end

/-! ## Four signers -/

section

def fourTrie : TrieMap :=
  TrieMap.empty.tryUpdate DposContext.validatorKey
    (encode (.list ([1, 2, 3, 4].map fun key => writeByteArray (checksumSigner key))))

def fourRoot : Hash := bytesToHash [2]

def fourDb : TrieDB := fun kind =>
  match kind with
  | .epoch => (∅ : ExtTreeMap Hash TrieMap).insert fourRoot fourTrie
  | _ => ∅

def fourEngine : SealEngine where
  toEngine := dposEngine checksumCrypto
  epoch := 100
  epoch_pos := by decide
  rootOf := fun _ trie =>
    if trie.tryGet DposContext.validatorKey = none then bytesToHash [1] else fourRoot

def signedDraft (hash : Hash) (number difficulty : Nat) (key : UInt8) : Header :=
  { cliqueDraft checksumCrypto hash number difficulty (checksumSigner key) vanity with
    dposContext := ⟨fourRoot, FixedBytes.zero 32, FixedBytes.zero 32, FixedBytes.zero 32,
      FixedBytes.zero 32⟩
    signature := ⟨checksumSig key, by simp [checksumSig]⟩ }

def fourGenesis : Header := signedDraft (FixedBytes.zero 32) 0 0 0

def genesisNode : Node := ⟨⟨fourGenesis, [], rfl⟩, ∅⟩

def contextAfter (node : Node) (parent : Header) : EpochContext :=
  (epochContext fourEngine fourDb node (num parent) (parent.hash checksumCrypto)
    parent).2.toOption.getD ⟨0, FixedBytes.zero 32, ∅, ∅⟩

def signedChild (node : Node) (parent : Header) (key : UInt8) : Header :=
  signedDraft (parent.hash checksumCrypto) (num parent + 1)
    (calcDifficulty (contextAfter node parent) (checksumSigner key) parent) key

def firstBlock : Header := signedChild genesisNode fourGenesis 1

def firstNode : Node :=
  ⟨push genesisNode.chain firstBlock,
    (verifySeal fourEngine fourDb genesisNode firstBlock []).1.recents⟩

theorem run_firstNode : Run fourEngine firstNode := by
  refine .accept fourDb firstBlock [] (.genesis fourGenesis rfl) ?_ ?_ ?_
  · decide +kernel
  · decide +kernel
  · decide +kernel

theorem eq_ok_of_isOk {ε α : Type} {result : Except ε α} (a : α)
    (made : result.isOk = true) : result = .ok (result.toOption.getD a) := by
  cases result with
  | error err => cases made
  | ok _ => rfl

theorem num_signedChild (key : UInt8) :
    num (signedChild firstNode firstBlock key) - 1 = num firstBlock := by
  have first : num firstBlock = 1 := by decide +kernel
  rw [signedChild, first]
  rfl

theorem getHeader_firstNode (key : UInt8) :
    getHeader checksumCrypto firstNode.chain (signedChild firstNode firstBlock key).parentHash
      (num (signedChild firstNode firstBlock key) - 1) = some firstBlock := by
  rw [num_signedChild]
  exact List.find?_cons_of_pos (decide_eq_true ⟨rfl, rfl⟩)

theorem context_firstNode (key : UInt8) :
    (epochContext fourEngine fourDb firstNode (num (signedChild firstNode firstBlock key) - 1)
      (signedChild firstNode firstBlock key).parentHash firstBlock).2 =
      .ok (contextAfter firstNode firstBlock) := by
  have parent : (signedChild firstNode firstBlock key).parentHash = firstBlock.hash checksumCrypto :=
    rfl
  rw [num_signedChild key, parent]
  exact eq_ok_of_isOk _ (by decide +kernel)

/-- The second block may come from another signer, which does not wait. -/
theorem signing_rate_other_signer :
    (sealBlock fourEngine fourDb firstNode (checksumSigner 2) (fun _ => none)
      (signedChild firstNode firstBlock 2) 1).2 ≠ .ok .waits := by
  have fresh : checksumSigner 2 ∉ (contextAfter firstNode firstBlock).recents.values := by
    decide +kernel
  have own : ecrecover fourEngine.toEngine (signedChild firstNode firstBlock 2) =
      .ok (checksumSigner 2) := by decide +kernel
  have rate := signing_rate_iff run_firstNode (by decide +kernel) (getHeader_firstNode 2)
    (context_firstNode 2) own
  exact fun waiting => fresh ((rate.2 (fun _ => none) 1 (by decide)).mp waiting).2

/-- The second block of the same signer is accepted: it is one block after the
first where three are asked for, and `Seal` would have waited. -/
theorem signed_twice_in_a_row :
    Run fourEngine firstNode ∧
      verifyHeader fourEngine.toEngine firstNode.chain (signedChild firstNode firstBlock 1) [] =
        .ok () ∧
      (verifySeal fourEngine fourDb firstNode (signedChild firstNode firstBlock 1) []).2 = .ok () ∧
      (contextAfter firstNode firstBlock).signers.size = 4 ∧
      num firstBlock = 1 ∧ num (signedChild firstNode firstBlock 1) = 2 ∧
      ecrecover fourEngine.toEngine firstBlock = .ok (checksumSigner 1) ∧
      ecrecover fourEngine.toEngine (signedChild firstNode firstBlock 1) =
        .ok (checksumSigner 1) ∧
      (sealBlock fourEngine fourDb firstNode (checksumSigner 1) (fun _ => none)
        (signedChild firstNode firstBlock 1) 1).2 = .ok .waits := by
  have own : ecrecover fourEngine.toEngine (signedChild firstNode firstBlock 1) =
      .ok (checksumSigner 1) := by decide +kernel
  have accepted : (verifySeal fourEngine fourDb firstNode (signedChild firstNode firstBlock 1)
      []).2 = .ok () := by decide +kernel
  have sealed := sealedBy_of_accepted accepted (getHeader_firstNode 1) (context_firstNode 1)
  refine ⟨run_firstNode, ?_, accepted, ?_, ?_, ?_, ?_, own, ?_⟩
  · decide +kernel
  · decide +kernel
  · decide +kernel
  · decide +kernel
  · decide +kernel
  · rw [sealed.sealBlock_waits_iff own _ (by decide)]
    decide +kernel

end

end Linkeye.Dpos.SigningRate
