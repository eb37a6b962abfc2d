import Linkeye.Poa.Progress

/-!
# Snapshots by any route

`apply` may be called for a list of headers at once or in parts, so `snapshot` finds the
same whether it starts from genesis, from a checkpoint on disk or from its cache.  The
cache knows blocks by their hash alone, and that must tell them apart: the hash of a
header with the digest of bft leaves out seals that the poa engine reads.
-/

set_option autoImplicit false

namespace Linkeye.Poa.Lookups

open Common.Types Common.Signature Consensus.Fields Core.Blocks
open Consensus.Heights (vanity)
open Dbft.Headers (num consecutive)
open Snapshots.Snapshot (applyHeader discardVote discardVotesOf recordVote settle
  shiftRecents uncast)
open Headers Lib.Runs Progress Rlp.Encode Snapshots

/-! ## Headers in two parts -/

/-- A snapshot with the block number and hash of another: no round of the loop reads them. -/
def restamp (number : Nat) (hash : Hash) (s : Snapshot) : Snapshot :=
  { s with number := number, hash := hash }

theorem restamp_restamp (number number' : Nat) (hash hash' : Hash) (s : Snapshot) :
    restamp number hash (restamp number' hash' s) = restamp number hash s := rfl

section
variable {e : Engine} {s t : Snapshot} {h : Header} (number : Nat) (hash : Hash)

theorem foldlM_cons_ok {rest : List Header} :
    (h :: rest).foldlM (applyHeader e) s = .ok t ↔
      ∃ middle, applyHeader e s h = .ok middle ∧ rest.foldlM (applyHeader e) middle = .ok t := by
  rw [List.foldlM_cons]
  cases applyHeader e s h <;> simp [bind, Except.bind]

theorem restamp_shiftRecents (n : Nat) :
    (restamp number hash s).shiftRecents n = restamp number hash (s.shiftRecents n) := by
  simp only [shiftRecents, apply_ite (restamp number hash)]
  rfl

theorem restamp_uncast (address : Address) (authorize : Bool) :
    ((restamp number hash s).uncast address authorize).1 =
      restamp number hash (s.uncast address authorize).1 := by
  simp only [uncast, restamp]
  cases s.tally[address]? with
  | none => rfl
  | some tally =>
    dsimp only
    split_ifs <;> rfl

theorem restamp_discardVote (signer address : Address) :
    (restamp number hash s).discardVote signer address =
      restamp number hash (s.discardVote signer address) := by
  simp only [discardVote, restamp_uncast]
  simp only [restamp]
  cases s.votes.find? _ <;> rfl

theorem restamp_recordVote (vote : Vote) :
    (restamp number hash s).recordVote vote = restamp number hash (s.recordVote vote) := by
  have same : (restamp number hash s).validVote = s.validVote := rfl
  rw [recordVote, recordVote, Snapshot.cast, Snapshot.cast, same]
  cases s.validVote vote.address vote.authorize with
  | false => rfl
  | true =>
    dsimp only [restamp]
    cases s.tally[vote.address]? <;> rfl

theorem restamp_discardVotesOf (signer : Address) :
    (restamp number hash s).discardVotesOf signer =
      restamp number hash (s.discardVotesOf signer) := by
  have uncasted (votes : List Vote) (s : Snapshot) :
      votes.foldl (fun s vote => (s.uncast vote.address vote.authorize).1) (restamp number hash s) =
        restamp number hash
          (votes.foldl (fun s vote => (s.uncast vote.address vote.authorize).1) s) := by
    induction votes generalizing s with
    | nil => rfl
    | cons vote rest ih => rw [List.foldl_cons, restamp_uncast, ih, List.foldl_cons]
  rw [discardVotesOf, discardVotesOf]
  dsimp only [restamp] at uncasted ⊢
  rw [uncasted]

theorem restamp_settle (n : Nat) (address : Address) :
    (restamp number hash s).settle n address = restamp number hash (s.settle n address) := by
  simp only [settle, restamp]
  by_cases passed : s.signers.size / 2 < (s.tally.getD address ⟨false, 0⟩).votes
  · by_cases admitted : (s.tally.getD address ⟨false, 0⟩).authorize = true
    · simp only [passed, admitted, if_true]
    · have expelled := restamp_discardVotesOf
        (s := shiftRecents { s with signers := s.signers.erase address } n) number hash address
      rw [← restamp_shiftRecents] at expelled
      dsimp only [restamp] at expelled
      simp only [passed, admitted, if_true, if_false, Bool.false_eq_true, expelled]
  · simp only [passed, if_false]

theorem restamp_shifted :
    shifted e (restamp number hash s) h = restamp number hash (shifted e s h) := by
  rw [shifted, shifted, ← restamp_shiftRecents]
  split_ifs <;> rfl

/-- A round of the loop, wherever it starts. -/
theorem applyHeader_restamp :
    applyHeader e (restamp number hash s) h = .ok t ↔
      ∃ next, applyHeader e s h = .ok next ∧ t = restamp number hash next := by
  have signed (signer : Address) (authorize : Bool) :
      signedBy (shifted e (restamp number hash s) h) h signer authorize =
        restamp number hash (signedBy (shifted e s h) h signer authorize) := by
    rw [restamp_shifted, signedBy, signedBy, ← restamp_settle, ← restamp_recordVote,
      ← restamp_discardVote]
    rfl
  simp only [applyHeader_eq_ok_iff, signed, restamp_shiftRecents]
  constructor
  · rintro ⟨signer, authorize, recovered, known, fresh, voted, rfl⟩
    exact ⟨_, ⟨signer, authorize, recovered, known, fresh, voted, rfl⟩, rfl⟩
  · rintro ⟨_, ⟨signer, authorize, recovered, known, fresh, voted, rfl⟩, rfl⟩
    exact ⟨signer, authorize, recovered, known, fresh, voted, rfl⟩

theorem foldlM_restamp (headers : List Header) :
    headers.foldlM (applyHeader e) (restamp number hash s) = .ok t ↔
      ∃ next, headers.foldlM (applyHeader e) s = .ok next ∧ t = restamp number hash next := by
  induction headers generalizing s with
  | nil => simp [pure, Except.pure, eq_comm]
  | cons h rest ih =>
    simp only [foldlM_cons_ok, applyHeader_restamp]
    constructor
    · rintro ⟨_, ⟨middle, first, rfl⟩, later⟩
      obtain ⟨next, run, rfl⟩ := ih.mp later
      exact ⟨next, ⟨middle, first, run⟩, rfl⟩
    · rintro ⟨next, ⟨middle, first, run⟩, rfl⟩
      exact ⟨_, ⟨middle, first, rfl⟩, ih.mpr ⟨next, run, rfl⟩⟩

end

variable {headers : List Header}

section
variable {e : Engine} {s t : Snapshot}

theorem apply_eq_ok_iff (nonempty : headers ≠ []) :
    s.apply e headers = .ok t ↔ consecutive s.number headers = true ∧
      ∃ folded, headers.foldlM (applyHeader e) s = .ok folded ∧
        t = restamp ((s.number + headers.length) % 2 ^ 64)
          ((headers.getLast nonempty).hash e.crypto) folded := by
  rw [Snapshot.apply, List.getLast?_eq_some_getLast nonempty]
  split_ifs with linked
  · cases run : headers.foldlM (applyHeader e) s with
    | error err => simp
    | ok folded => simp [linked, restamp, foldlM_number headers run, eq_comm]
  · simp [linked]

theorem consecutive_append (number : Nat) (first second : List Header) :
    consecutive number (first ++ second) =
      (consecutive number first && consecutive (lastNumber number first) second) := by
  induction first generalizing number with
  | nil => rfl
  | cons h rest ih => simp only [List.cons_append, consecutive, ih, Bool.and_assoc]; rfl

theorem lastNumber_of_ne_nil {number : Nat} (nonempty : headers ≠ [])
    (linked : consecutive number headers = true) :
    lastNumber number headers = (number + headers.length) % 2 ^ 64 := by
  cases headers with
  | nil => exact absurd rfl nonempty
  | cons h rest =>
    rw [consecutive, Bool.and_eq_true, decide_eq_true_eq] at linked
    have small : num h < 2 ^ 64 := Nat.mod_lt _ (Nat.two_pow_pos 64)
    change lastNumber (num h) rest = _
    rw [lastNumber_eq small rest linked.2, linked.1, List.length_cons]
    omega

theorem foldlM_append_ok (first second : List Header) :
    (first ++ second).foldlM (applyHeader e) s = .ok t ↔
      ∃ middle, first.foldlM (applyHeader e) s = .ok middle ∧
        second.foldlM (applyHeader e) middle = .ok t := by
  rw [List.foldlM_append]
  cases first.foldlM (applyHeader e) s <;> simp [bind, Except.bind]

/-- Headers may be applied at once or in two parts. -/
theorem apply_append_iff (first second : List Header) :
    s.apply e (first ++ second) = .ok t ↔
      ∃ middle, s.apply e first = .ok middle ∧ middle.apply e second = .ok t := by
  by_cases none : first = []
  · subst none
    simp [Snapshot.apply]
  by_cases last : second = []
  · subst last
    simp [Snapshot.apply]
  have number : (s.number + first.length) % 2 ^ 64 + second.length ≡
      s.number + (first ++ second).length [MOD 2 ^ 64] := by
    rw [List.length_append, ← add_assoc]
    exact (Nat.mod_modEq _ _).add_right _
  rw [apply_eq_ok_iff (List.append_ne_nil_of_left_ne_nil none second), consecutive_append,
    Bool.and_eq_true]
  constructor
  · rintro ⟨⟨linked, onward⟩, folded, run, rfl⟩
    obtain ⟨middle, firstRun, secondRun⟩ := (foldlM_append_ok first second).mp run
    rw [lastNumber_of_ne_nil none linked] at onward
    refine ⟨_, (apply_eq_ok_iff none).mpr ⟨linked, middle, firstRun, rfl⟩, ?_⟩
    refine (apply_eq_ok_iff last).mpr ⟨onward, _, (foldlM_restamp _ _ second).mpr
      ⟨folded, secondRun, rfl⟩, ?_⟩
    rw [restamp_restamp, List.getLast_append_of_ne_nil _ last]
    exact congrArg (restamp · _ folded) number.symm
  · rintro ⟨_, begun, ended⟩
    obtain ⟨linked, middle, firstRun, rfl⟩ := (apply_eq_ok_iff none).mp begun
    obtain ⟨onward, _, secondRun, rfl⟩ := (apply_eq_ok_iff last).mp ended
    obtain ⟨folded, run, rfl⟩ := (foldlM_restamp _ _ second).mp secondRun
    refine ⟨⟨linked, ?_⟩, folded, (foldlM_append_ok first second).mpr ⟨middle, firstRun, run⟩, ?_⟩
    · rw [lastNumber_of_ne_nil none linked]
      exact onward
    · rw [restamp_restamp, List.getLast_append_of_ne_nil _ last]
      exact congrArg (restamp · _ folded) number

end

/-! ## The cache and the database of snapshots -/

/-- Headers that follow one another from the block `parent` to the block `hash`. -/
def Linked (e : Engine) (parent : Hash) : List Header → Hash → Prop
  | [], hash => parent = hash
  | h :: rest, hash => h.parentHash = parent ∧ Linked e (h.hash e.crypto) rest hash

/-- The headers a node gets to see are known by their hash. -/
structure Distinct (e : Engine) (genesis : Header) (known : Header → Prop) : Prop where
  apart : ∀ h other, known h → known other → h.hash e.crypto = other.hash e.crypto → h = other
  later : ∀ h, known h → h.hash e.crypto ≠ genesis.hash e.crypto
  first : ∀ h, known h → num h = 1 → h.parentHash = genesis.hash e.crypto

inductive Event where
  | lookup (number : Nat) (hash : Hash) (parents : List Header)
  | forget (recents disk : Std.ExtTreeMap Hash Snapshot)
  | chain (blocks : List Header)

/-- A node looks up snapshots while its chain changes and its caches lose entries. -/
def lookups (e : Engine) (genesis : Header) : System Node Event where
  init := fun node =>
    node.chain.genesis = genesis ∧ node.chain.blocks = [] ∧ node.recents = ∅ ∧ node.disk = ∅
  enabled := fun node event =>
    match event with
    | .forget recents disk =>
      ∀ (hash : Hash) (s : Snapshot),
        (recents[hash]? = some s → node.recents[hash]? = some s) ∧
          (disk[hash]? = some s → node.disk[hash]? = some s)
    | _ => True
  next := fun node event =>
    match event with
    | .lookup number hash parents => (snapshot e node number hash parents).1
    | .forget recents disk => { node with recents := recents, disk := disk }
    | .chain blocks => { node with chain := { node.chain with blocks := blocks } }

/-- Only known headers come in, and block zero is asked for by the hash of genesis. -/
def Sees (e : Engine) (genesis : Header) (known : Header → Prop) (_ : Node) : Event → Prop
  | .lookup number hash parents =>
    (∀ h ∈ parents, known h) ∧ (number = 0 → hash = genesis.hash e.crypto)
  | .forget _ _ => True
  | .chain blocks => ∀ h ∈ blocks, known h

def start (e : Engine) (genesis : Header) : Snapshot :=
  newSnapshot 0 (genesis.hash e.crypto) (genesisSigners genesis)

/-- The snapshot of a block, made from genesis. -/
def Derives (e : Engine) (genesis : Header) (known : Header → Prop) (hash : Hash) (s : Snapshot) :
    Prop :=
  ∃ path, (∀ h ∈ path, known h) ∧ Linked e (genesis.hash e.crypto) path hash ∧
    (start e genesis).apply e path = .ok s

structure Sound (e : Engine) (genesis : Header) (known : Header → Prop) (node : Node) : Prop where
  origin : node.chain.genesis = genesis
  blocks : ∀ h ∈ node.chain.blocks, known h
  recents : ∀ (hash : Hash) (s : Snapshot), node.recents[hash]? = some s → Derives e genesis known hash s
  disk : ∀ (hash : Hash) (s : Snapshot), node.disk[hash]? = some s → Derives e genesis known hash s

variable {s : Snapshot}

section Caches
variable {e : Engine} {genesis : Header} {known : Header → Prop}

theorem linked_append (parent hash : Hash) (first second : List Header) :
    Linked e parent (first ++ second) hash ↔
      ∃ middle, Linked e parent first middle ∧ Linked e middle second hash := by
  induction first generalizing parent with
  | nil => simp [Linked]
  | cons h rest ih =>
    simp only [List.cons_append, Linked, ih]
    constructor
    · rintro ⟨follows, middle, before, after⟩
      exact ⟨middle, ⟨follows, before⟩, after⟩
    · rintro ⟨middle, ⟨follows, before⟩, after⟩
      exact ⟨follows, middle, before, after⟩

theorem linked_concat (parent hash : Hash) (first : List Header) (h : Header) :
    Linked e parent (first ++ [h]) hash ↔
      Linked e parent first h.parentHash ∧ h.hash e.crypto = hash := by
  rw [linked_append]
  constructor
  · rintro ⟨_, before, rfl, last⟩
    exact ⟨before, last⟩
  · rintro ⟨before, last⟩
    exact ⟨_, before, rfl, last⟩

/-- Only one path of known headers leads from genesis to a block. -/
theorem Distinct.path_unique (distinct : Distinct e genesis known) (path : List Header) :
    ∀ (hash : Hash) (other : List Header), (∀ h ∈ path, known h) → (∀ h ∈ other, known h) →
      Linked e (genesis.hash e.crypto) path hash → Linked e (genesis.hash e.crypto) other hash →
      path = other := by
  induction path using List.reverseRecOn with
  | nil =>
    rintro _ other _ seen rfl linked
    rcases List.eq_nil_or_concat' other with rfl | ⟨before, h, rfl⟩
    · rfl
    · exact absurd ((linked_concat _ _ before h).mp linked).2
        (distinct.later h (seen h (by simp)))
  | append_singleton path h ih =>
    intro hash other seen seen' linked linked'
    obtain ⟨before, last⟩ := (linked_concat _ _ path h).mp linked
    have own : known h := seen h (by simp)
    rcases List.eq_nil_or_concat' other with rfl | ⟨before', h', rfl⟩
    · exact absurd (last.trans linked'.symm) (distinct.later h own)
    · obtain ⟨linked', last'⟩ := (linked_concat _ _ before' h').mp linked'
      have same := distinct.apart h h' own (seen' h' (by simp)) (last.trans last'.symm)
      subst same
      rw [ih _ before' (fun g listed => seen g (List.mem_append_left _ listed))
        (fun g listed => seen' g (List.mem_append_left _ listed)) before linked']

theorem Distinct.derives_unique (distinct : Distinct e genesis known) {hash : Hash}
    {t : Snapshot} (left : Derives e genesis known hash s)
    (right : Derives e genesis known hash t) : s = t := by
  obtain ⟨path, seen, linked, applied⟩ := left
  obtain ⟨other, seen', linked', applied'⟩ := right
  have same := distinct.path_unique path hash other seen seen' linked linked'
  rw [same, applied'] at applied
  exact (Except.ok.inj applied).symm

theorem Derives.hash_eq {hash : Hash} (derived : Derives e genesis known hash s) :
    s.hash = hash := by
  obtain ⟨path, _, linked, applied⟩ := derived
  rcases List.eq_nil_or_concat' path with rfl | ⟨before, h, rfl⟩
  · cases applied
    exact linked
  · have nonempty : before ++ [h] ≠ [] := by simp
    obtain ⟨_, folded, _, rfl⟩ := (apply_eq_ok_iff nonempty).mp applied
    rw [List.getLast_append_of_ne_nil _ (List.cons_ne_nil h [])]
    exact ((linked_concat _ _ before h).mp linked).2

theorem derives_start : Derives e genesis known (genesis.hash e.crypto) (start e genesis) :=
  ⟨[], by simp, rfl, rfl⟩

theorem derives_apply {middle hash : Hash} {t : Snapshot}
    (derived : Derives e genesis known middle s) (seen : ∀ h ∈ headers, known h)
    (linked : Linked e middle headers hash) (applied : s.apply e headers = .ok t) :
    Derives e genesis known hash t := by
  obtain ⟨path, before, upto, made⟩ := derived
  refine ⟨path ++ headers, ?_, (linked_append _ _ path headers).mpr ⟨middle, upto, linked⟩,
    (apply_append_iff path headers).mpr ⟨s, made, applied⟩⟩
  intro h listed
  exact (List.mem_append.mp listed).elim (before h) (seen h)

/-! ## The loop of `snapshot` -/

variable {node : Node} {hash : Hash} {parents : List Header}

section
variable (sound : Sound e genesis known node)
include sound

theorem Sound.addRecent
    (derived : Derives e genesis known s.hash s) :
    Sound e genesis known (addRecent node s) where
  __ := sound
  recents := by
    intro hash t held
    rw [Headers.addRecent, Lib.Maps.get_insert] at held
    split at held
    · next same =>
      cases held
      exact same ▸ derived
    · exact sound.recents hash t held

theorem Sound.storeSnapshot
    (derived : Derives e genesis known s.hash s) :
    Sound e genesis known (storeSnapshot node s) where
  __ := sound
  disk := by
    intro hash t held
    rw [Headers.storeSnapshot, Lib.Maps.get_insert] at held
    split at held
    · next same =>
      cases held
      exact same ▸ derived
    · exact sound.disk hash t held

theorem pickHeader_known {number : Nat}
    (seen : ∀ h ∈ parents, known h) (later : number ≠ 0) {h : Header} {rest : List Header}
    (picked : pickHeader e node hash number parents = .ok (h, rest)) :
    known h ∧ h.hash e.crypto = hash ∧ num h = number ∧ ∀ g ∈ rest, known g := by
  cases parents with
  | cons parent parents =>
    rw [pickHeader] at picked
    split at picked
    · rename_i same
      cases picked
      exact ⟨seen _ List.mem_cons_self, same.1, same.2,
        fun g listed => seen g (List.mem_cons_of_mem _ listed)⟩
    · cases picked
  | nil =>
    rw [pickHeader] at picked
    split at picked
    · cases picked
    · rename_i found
      cases picked
      have own := List.find?_some found
      rw [decide_eq_true_eq] at own
      refine ⟨?_, own.1, own.2, by simp⟩
      rcases List.mem_append.mp (List.mem_of_find?_eq_some found) with block | zero
      · exact sound.blocks _ block
      · rw [List.mem_singleton] at zero
        rw [zero, node.chain.genesis_num] at own
        exact absurd own.2.symm later

theorem genesisSnapshot_eq_ok
    (made : (genesisSnapshot e node).2 = .ok s) : s = start e genesis := by
  rw [genesisSnapshot] at made
  split at made
  · cases made
  · cases made
    rw [sound.origin]
    rfl

theorem Sound.genesisSnapshot :
    Sound e genesis known (genesisSnapshot e node).1 := by
  rw [Headers.genesisSnapshot]
  split
  · exact sound
  · apply sound.storeSnapshot
    rw [sound.origin]
    exact derives_start

end

def cached (node : Node) (number : Nat) (hash : Hash) : Option Snapshot :=
  match node.recents[hash]? with
  | some s => some s
  | none => if number % checkpointInterval = 0 then node.disk[hash]? else none

theorem Sound.cached {number : Nat} (sound : Sound e genesis known node)
    (held : cached node number hash = some s) : Derives e genesis known hash s := by
  rw [Lookups.cached] at held
  split at held
  · rename_i recent
    cases held
    exact sound.recents hash s recent
  · split at held
    · exact sound.disk hash s held
    · cases held

/-- How the loop comes to a snapshot and to the headers above it. -/
inductive Gathered (e : Engine) (node : Node) :
    Nat → Hash → List Header → Snapshot → List Header → Prop where
  | cached {number : Nat} {hash : Hash} {parents : List Header} {s : Snapshot}
      (hit : cached node number hash = some s) : Gathered e node number hash parents s []
  | genesis {hash : Hash} {parents : List Header} {s : Snapshot} (miss : cached node 0 hash = none)
      (made : (genesisSnapshot e node).2 = .ok s) : Gathered e node 0 hash parents s []
  | header {below : Nat} {hash : Hash} {parents rest headers : List Header} {h : Header}
      {s : Snapshot} (miss : Lookups.cached node (below + 1) hash = none)
      (picked : pickHeader e node hash (below + 1) parents = .ok (h, rest))
      (before : Gathered e node below h.parentHash rest s headers) :
      Gathered e node (below + 1) hash parents s (headers ++ [h])

theorem gather_eq (number : Nat) (headers : List Header) :
    gather e node number hash parents headers =
      match cached node number hash with
      | some s => (node, .ok (s, headers))
      | none =>
        match number with
        | 0 => ((genesisSnapshot e node).1, (genesisSnapshot e node).2.map fun s => (s, headers))
        | below + 1 =>
          match pickHeader e node hash (below + 1) parents with
          | .error err => (node, .error err)
          | .ok (h, rest) => gather e node below h.parentHash rest (h :: headers) := by
  rw [gather.eq_def, cached]
  cases node.recents[hash]? with
  | some s => rfl
  | none =>
    cases (if number % checkpointInterval = 0 then node.disk[hash]? else none) with
    | some s => rfl
    | none =>
      cases number with
      | zero => rcases genesisSnapshot e node with ⟨after, _ | s⟩ <;> rfl
      | succ below => rfl

theorem gather_eq_ok_iff (number : Nat) {acc all : List Header} :
    (gather e node number hash parents acc).2 = .ok (s, all) ↔
      ∃ headers, all = headers ++ acc ∧ Gathered e node number hash parents s headers := by
  constructor
  · intro run
    induction number generalizing hash parents acc with
    | zero =>
      rw [gather_eq] at run
      cases hit : cached node 0 hash with
      | some found =>
        rw [hit] at run
        cases run
        exact ⟨[], rfl, .cached hit⟩
      | none =>
        rw [hit] at run
        cases made : (genesisSnapshot e node).2 with
        | error err =>
          rw [made] at run
          cases run
        | ok found =>
          rw [made] at run
          cases run
          exact ⟨[], rfl, .genesis hit made⟩
    | succ below ih =>
      rw [gather_eq] at run
      cases hit : cached node (below + 1) hash with
      | some found =>
        rw [hit] at run
        cases run
        exact ⟨[], rfl, .cached hit⟩
      | none =>
        rw [hit] at run
        dsimp only at run
        split at run
        · cases run
        · rename_i h rest picked
          obtain ⟨headers, rfl, before⟩ := ih run
          exact ⟨headers ++ [h], by simp, .header hit picked before⟩
  · rintro ⟨headers, rfl, gathered⟩
    induction gathered generalizing acc with
    | cached hit =>
      rw [gather_eq, hit]
      rfl
    | genesis miss made =>
      rw [gather_eq, miss]
      dsimp only
      rw [made]
      rfl
    | header miss picked _ ih =>
      rw [gather_eq, miss]
      dsimp only
      rw [picked, List.append_assoc]
      exact ih

theorem gather_eq_ok {number : Nat} {found : Snapshot × List Header}
    (run : (gather e node number hash parents []).2 = .ok found) :
    Gathered e node number hash parents found.1 found.2 := by
  obtain ⟨headers, same, gathered⟩ := (gather_eq_ok_iff number).mp run
  rw [same, List.append_nil]
  exact gathered

theorem Sound.gather (sound : Sound e genesis known node) (number : Nat) (headers : List Header) :
    Sound e genesis known (gather e node number hash parents headers).1 := by
  induction number generalizing hash parents headers with
  | zero =>
    rw [gather_eq]
    split
    · exact sound
    · exact sound.genesisSnapshot
  | succ below ih =>
    rw [gather_eq]
    split
    · exact sound
    · dsimp only
      split
      · exact sound
      · exact ih _

theorem gathered_sound (distinct : Distinct e genesis known) (sound : Sound e genesis known node)
    {number : Nat}
    (gathered : Gathered e node number hash parents s headers) (seen : ∀ h ∈ parents, known h)
    (zero : number = 0 → hash = genesis.hash e.crypto) :
    ∃ middle, Derives e genesis known middle s ∧ (∀ h ∈ headers, known h) ∧
      Linked e middle headers hash := by
  induction gathered with
  | cached hit => exact ⟨_, sound.cached hit, by simp, rfl⟩
  | genesis _ made =>
    rw [genesisSnapshot_eq_ok sound made, zero rfl]
    exact ⟨_, derives_start, by simp, rfl⟩
  | @header below _ _ _ before h _ _ picked _ ih =>
    obtain ⟨own, same, number, left⟩ :=
      pickHeader_known sound seen (Nat.succ_ne_zero below) picked
    obtain ⟨middle, derived, all, linked⟩ := ih left fun zero => by
      subst zero
      exact distinct.first h own number
    exact ⟨middle, derived, List.forall_mem_append.mpr ⟨all, List.forall_mem_singleton.mpr own⟩,
      (linked_concat _ _ before h).mpr ⟨linked, same⟩⟩

theorem snapshot_sound (distinct : Distinct e genesis known) (number : Nat)
    (sound : Sound e genesis known node) (seen : ∀ h ∈ parents, known h)
    (zero : number = 0 → hash = genesis.hash e.crypto) :
    Sound e genesis known (snapshot e node number hash parents).1 ∧
      ∀ s, (snapshot e node number hash parents).2 = .ok s → Derives e genesis known hash s := by
  have after : Sound e genesis known (gather e node number hash parents []).1 :=
    sound.gather number []
  have gathered {found : Snapshot × List Header}
      (run : (gather e node number hash parents []).2 = .ok found) :=
    gathered_sound distinct sound (gather_eq_ok run) seen zero
  rw [snapshot]
  split
  · rename_i run
    rw [run] at after
    exact ⟨after, by simp⟩
  · rename_i left found headers run
    rw [run] at after gathered
    split
    · exact ⟨after, by simp⟩
    · rename_i s applied
      obtain ⟨middle, derived, all, linked⟩ := gathered rfl
      have result := derives_apply derived all linked applied
      have own : Derives e genesis known s.hash s := by
        rw [result.hash_eq]
        exact result
      have recent := after.addRecent own
      refine ⟨?_, ?_⟩
      · split
        · exact recent.storeSnapshot own
        · exact recent
      · rintro _ ⟨⟩
        exact result

/-! ## Lookups from genesis -/

def fresh (node : Node) : Node := ⟨node.chain, ∅, ∅⟩

theorem Sound.fresh (sound : Sound e genesis known node) : Sound e genesis known (fresh node) where
  __ := sound
  recents := by simp [Lookups.fresh]
  disk := by simp [Lookups.fresh]

theorem genesisSnapshot_fresh (node : Node) :
    (genesisSnapshot e (fresh node)).2 = (genesisSnapshot e node).2 := by
  have same : (fresh node).chain = node.chain := rfl
  rw [genesisSnapshot, genesisSnapshot, same]
  cases verifyGenesis e node.chain.genesis <;> rfl

section
variable (distinct : Distinct e genesis known)
include distinct

/-- With nothing cached the loop goes down to genesis.  Where another node finds a
snapshot on the way, it comes back with the last of the same headers. -/
theorem gathered_of_fresh (sound : Sound e genesis known node) {number : Nat} {begun : Snapshot}
    {headers : List Header} (run : Gathered e (fresh node) number hash parents begun headers)
    (seen : ∀ h ∈ parents, known h) (zero : number = 0 → hash = genesis.hash e.crypto) :
    begun = start e genesis ∧
      ∃ s done rest middle, Gathered e node number hash parents s rest ∧
        headers = done ++ rest ∧ (∀ h ∈ done, known h) ∧
        Linked e (genesis.hash e.crypto) done middle ∧ Derives e genesis known middle s := by
  induction run with
  | cached hit =>
    simp [cached, fresh] at hit
  | @genesis hash _ _ _ made =>
    rw [genesisSnapshot_fresh] at made
    have begins := genesisSnapshot_eq_ok sound made
    refine ⟨begins, ?_⟩
    cases hit : cached node 0 hash with
    | some s =>
      exact ⟨s, [], [], hash, .cached hit, rfl, by simp, (zero rfl).symm, sound.cached hit⟩
    | none =>
      refine ⟨_, [], [], _, .genesis hit made, rfl, by simp, rfl, ?_⟩
      rw [begins]
      exact derives_start
  | @header below hash _ _ headers h _ miss picked before ih =>
    obtain ⟨own, _, number, left⟩ :=
      pickHeader_known sound.fresh seen (Nat.succ_ne_zero below) picked
    obtain ⟨begins, s, done, rest, middle, gathered, split, all, linked, derived⟩ :=
      ih left fun zero => by
        subst zero
        exact distinct.first h own number
    refine ⟨begins, ?_⟩
    cases hit : cached node (below + 1) hash with
    | some s =>
      obtain ⟨_, origin, all, linked⟩ :=
        gathered_sound distinct sound.fresh (.header miss picked before) seen zero
      rw [begins] at origin
      rw [← origin.hash_eq] at linked
      exact ⟨s, _, [], hash, .cached hit, (List.append_nil _).symm, all, linked, sound.cached hit⟩
    | none =>
      refine ⟨s, done, rest ++ [h], middle, .header hit picked gathered, ?_, all, linked, derived⟩
      rw [split, List.append_assoc]

/-- A lookup that succeeds from genesis gives the same with any cache. -/
theorem snapshot_of_fresh (number : Nat)
    (sound : Sound e genesis known node) (seen : ∀ h ∈ parents, known h)
    (zero : number = 0 → hash = genesis.hash e.crypto) {t : Snapshot}
    (looked : (snapshot e (fresh node) number hash parents).2 = .ok t) :
    (snapshot e node number hash parents).2 = .ok t := by
  rw [snapshot] at looked
  split at looked
  · cases looked
  · rename_i after begun headers run
    split at looked
    · cases looked
    · rename_i applied
      cases looked
      have result := gather_eq_ok (congrArg Prod.snd run)
      obtain ⟨begins, s, done, rest, middle, gathered, split, all, linked, derived⟩ :=
        gathered_of_fresh distinct sound result seen zero
      dsimp only at begins split
      rw [begins, split] at applied
      obtain ⟨between, upto, onward⟩ := (apply_append_iff done rest).mp applied
      rw [distinct.derives_unique ⟨done, all, linked, upto⟩ derived] at onward
      have again : (gather e node number hash parents []).2 = .ok (s, rest) :=
        (gather_eq_ok_iff number).mpr ⟨rest, (List.append_nil rest).symm, gathered⟩
      rw [snapshot]
      generalize gather e node number hash parents [] = result at again
      obtain ⟨left, _⟩ := result
      cases again
      dsimp only
      rw [onward]

theorem sound_of_reached
    (reached : Lib.Runs.Reachable (lookups e genesis) (Sees e genesis known) node) :
    Sound e genesis known node := by
  refine reached.invariant _ ?_ ?_
  · rintro node ⟨origin, blocks, recents, disk⟩
    exact ⟨origin, by simp [blocks], by simp [recents], by simp [disk]⟩
  · intro node event sound enabled sees
    cases event with
    | lookup number hash parents => exact (snapshot_sound distinct number sound sees.1 sees.2).1
    | forget recents disk =>
      exact ⟨sound.origin, sound.blocks, fun hash s held => sound.recents hash s
        ((enabled hash s).1 held), fun hash s held => sound.disk hash s ((enabled hash s).2 held)⟩
    | chain blocks => exact ⟨sound.origin, sees, sound.recents, sound.disk⟩

end

/-- Headers may be applied in parts, and so a lookup has one outcome, whatever was looked
up, stored or forgotten before. -/
theorem lookups_agree (distinct : Distinct e genesis known) {other : Node} {number : Nat}
    {parents' : List Header}
    (reached : Lib.Runs.Reachable (lookups e genesis) (Sees e genesis known) node)
    (reached' : Lib.Runs.Reachable (lookups e genesis) (Sees e genesis known) other)
    (sees : Sees e genesis known node (.lookup number hash parents))
    (sees' : Sees e genesis known other (.lookup number hash parents')) :
    (∀ (s t : Snapshot) (first second : List Header),
      s.apply e (first ++ second) = .ok t ↔
        ∃ middle, s.apply e first = .ok middle ∧ middle.apply e second = .ok t) ∧
    (∀ s t, (snapshot e node number hash parents).2 = .ok s →
      (snapshot e other number hash parents').2 = .ok t → s = t) ∧
    ∀ s, (snapshot e ⟨node.chain, ∅, ∅⟩ number hash parents).2 = .ok s →
      (snapshot e node number hash parents).2 = .ok s := by
  have sound := sound_of_reached distinct reached
  have sound' := sound_of_reached distinct reached'
  refine ⟨fun _ _ => apply_append_iff, ?_, ?_⟩
  · intro s t found found'
    exact distinct.derives_unique
      ((snapshot_sound distinct number sound sees.1 sees.2).2 s found)
      ((snapshot_sound distinct number sound' sees'.1 sees'.2).2 t found')
  · intro s found
    exact snapshot_of_fresh distinct number sound sees.1 sees.2 found

end Caches

/-! ### Two headers of one hash -/

def emptyNode : Node := ⟨⟨fourGenesis, [], fourGenesis_num⟩, ∅, ∅⟩

/-- A first block that passes for one of bft, where the seals that the poa engine reads
are the committed ones. -/
def twin (key : UInt8) : Header :=
  { Header.zero with
    parentHash := fourGenesis.hash checksumCrypto
    number := 1
    mixDigest := bftDigest
    extra := vanity ++ encode (BFTExtra.encodeRLP ⟨[], [], [checksumSig key]⟩) }

/-- The second node has looked up the block by its other header. -/
theorem lookup_depends_on_cache :
    ((snapshot fourEngine emptyNode 1 ((twin 2).hash checksumCrypto) [twin 2]).2.map
        fun s => s.recents.toList) = .ok [(1, checksumSigner 2)] ∧
      ((snapshot fourEngine (snapshot fourEngine emptyNode 1 ((twin 2).hash checksumCrypto)
          [twin 1]).1 1 ((twin 2).hash checksumCrypto) [twin 2]).2.map
        fun s => s.recents.toList) = .ok [(1, checksumSigner 1)] := by
  constructor
  · decide +kernel
  · decide +kernel

/-- A first block of poa is found from genesis and in the cache. -/
theorem lookups_agree_first :
    Lib.Runs.Reachable (lookups fourEngine fourGenesis)
      (Sees fourEngine fourGenesis (· = firstBlock)) emptyNode ∧
    ∀ s t,
      (snapshot fourEngine emptyNode 1 (firstBlock.hash checksumCrypto) [firstBlock]).2 = .ok s →
      (snapshot fourEngine ((lookups fourEngine fourGenesis).next emptyNode
        (.lookup 1 (firstBlock.hash checksumCrypto) [firstBlock])) 1
          (firstBlock.hash checksumCrypto) []).2 = .ok t → s = t := by
  have distinct : Distinct fourEngine fourGenesis (· = firstBlock) := by
    refine ⟨?_, ?_, ?_⟩
    · rintro h other rfl rfl _
      rfl
    · rintro h rfl
      decide +kernel
    · rintro h rfl _
      rfl
  have reached : Lib.Runs.Reachable (lookups fourEngine fourGenesis)
      (Sees fourEngine fourGenesis (· = firstBlock)) emptyNode := .init ⟨rfl, rfl, rfl, rfl⟩
  have sees (node : Node) : Sees fourEngine fourGenesis (· = firstBlock) node
      (.lookup 1 (firstBlock.hash checksumCrypto) [firstBlock]) := ⟨by simp, by simp⟩
  refine ⟨reached, ?_⟩
  have later := reached.step (Event.lookup 1 (firstBlock.hash checksumCrypto) [firstBlock])
    trivial (sees emptyNode)
  exact (lookups_agree distinct reached later (sees emptyNode) ⟨by simp, by simp⟩).2.1

end Linkeye.Poa.Lookups
