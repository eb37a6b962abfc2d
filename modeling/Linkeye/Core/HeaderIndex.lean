import Linkeye.Core.Blocks
import Linkeye.Lib.Ancestry
import Linkeye.Lib.Runs

/-!
# The chain of headers

`core/headerchain.go`: headers and total difficulties by hash, the canonical hash of
each number and the current header.  `WriteHeader` makes the heavier header the head
and rewrites the canonical numbers along its ancestors; `SetHead` removes the headers
of the canonical chain above a number.  The headers of other forks stay, also those
that stand on a header that was removed.
-/

set_option autoImplicit false

namespace Linkeye.Core.HeaderIndex

open Common.Types Common.Signature Blocks Lib.Ancestry Lib.Runs Lib.Maps
open Std (ExtTreeMap)

/-- A read from a table of the chain database.  A database key is number and hash; the
hash alone is the key here, and the number of the entry is compared on reading. -/
def readAt {V : Type} (numberOf : V → Nat) (table : ExtTreeMap Hash V) (hash : Hash)
    (number : Nat) : Option V :=
  match table[hash]? with
  | some entry => if numberOf entry = number then some entry else none
  | none => none

/-- The tables that the header chain reads. -/
structure HeaderChain where
  genesisHeader : Header
  headers : ExtTreeMap Hash Header
  /-- Number and total difficulty. -/
  tds : ExtTreeMap Hash (Nat × Nat)
  canonical : ExtTreeMap Nat Hash
  currentHeader : Header
  currentHeaderHash : Hash

def HeaderChain.getHeader (hc : HeaderChain) (hash : Hash) (number : Nat) : Option Header :=
  readAt Header.number hc.headers hash number

def HeaderChain.getTd (hc : HeaderChain) (hash : Hash) (number : Nat) : Option Nat :=
  (readAt Prod.fst hc.tds hash number).map Prod.snd

/-- `GetCanonicalHash`: the zero hash stands for no entry. -/
def getCanonicalHash (canonical : ExtTreeMap Nat Hash) (number : Nat) : Hash :=
  canonical[number]?.getD (FixedBytes.zero 32)

/-- The loop that deletes the canonical numbers above a new head, until one is missing. -/
def deleteAbove : Nat → Nat → ExtTreeMap Nat Hash → ExtTreeMap Nat Hash
  | 0, _, canonical => canonical
  | fuel + 1, i, canonical =>
    if getCanonicalHash canonical i = FixedBytes.zero 32 then canonical
    else deleteAbove fuel (i + 1) (canonical.erase i)

def highest (canonical : ExtTreeMap Nat Hash) : Nat := canonical.keys.foldr max 0

/-- The loop that overwrites stale canonical numbers from the parent of a new head on
down.  `none` is the panic on a header that is not stored. -/
def overwriteStale (hc : HeaderChain) :
    Nat → Hash → ExtTreeMap Nat Hash → Option (ExtTreeMap Nat Hash)
  | 0, headHash, canonical =>
    if getCanonicalHash canonical 0 = headHash then some canonical
    else
      match hc.getHeader headHash 0 with
      | none => none
      | some header =>
        -- The number wraps to one without a header and without a canonical hash.
        if header.parentHash = FixedBytes.zero 32 then some (canonical.insert 0 headHash)
        else none
  | number + 1, headHash, canonical =>
    if getCanonicalHash canonical (number + 1) = headHash then some canonical
    else
      match hc.getHeader headHash (number + 1) with
      | none => none
      | some header =>
        overwriteStale hc number header.parentHash (canonical.insert (number + 1) headHash)

inductive WriteStatus where
  | nonStatTy
  | canonStatTy
  | sideStatTy

inductive WriteError where
  | unknownAncestor
  | panicked

section
variable (crypto : Crypto)

def HeaderChain.store (hc : HeaderChain) (header : Header) (td : Nat) : HeaderChain :=
  { hc with
    headers := hc.headers.insert (header.hash crypto) header
    tds := hc.tds.insert (header.hash crypto) (header.number, td) }

/-- The parent's total difficulty.  Before number zero stands a number that no header has. -/
def HeaderChain.parentTd (hc : HeaderChain) (header : Header) : Option Nat :=
  if header.number = 0 then none else hc.getTd header.parentHash (header.number - 1)

/-- A header of total difficulty `externTd` becomes the head; `coin` is the outcome of
`mrand.Float64() < 0.5`. -/
def wins (externTd localTd : Nat) (coin : Bool) : Bool :=
  localTd < externTd || (externTd = localTd && coin)

/-- The canonical numbers when `header` becomes the head. -/
def HeaderChain.reroute (hc : HeaderChain) (header : Header) :
    Option (ExtTreeMap Nat Hash) :=
  let above := deleteAbove (highest hc.canonical) (header.number + 1) hc.canonical
  (overwriteStale hc (header.number - 1) header.parentHash above).map
    (·.insert header.number (header.hash crypto))

def HeaderChain.writeHeader (hc : HeaderChain) (header : Header) (coin : Bool) :
    Except WriteError (HeaderChain × WriteStatus) :=
  match hc.parentTd header with
  | none => .error .unknownAncestor
  | some ptd =>
    match hc.getTd hc.currentHeaderHash hc.currentHeader.number with
    | none => .error .panicked
    | some localTd =>
      let externTd := header.difficulty + ptd
      let stored := hc.store crypto header externTd
      if wins externTd localTd coin then
        match stored.reroute crypto header with
        | none => .error .panicked
        | some canonical =>
          .ok ({ stored with
            canonical := canonical
            currentHeader := header
            currentHeaderHash := header.hash crypto }, .canonStatTy)
      else .ok (stored, .sideStatTy)

def HeaderChain.delete (hc : HeaderChain) (hash : Hash) : HeaderChain :=
  { hc with
    headers := hc.headers.erase hash
    tds := hc.tds.erase hash }

def HeaderChain.unwind (head : Nat) :
    Nat → HeaderChain → Option Header → HeaderChain × Option Header
  | fuel + 1, hc, some hdr =>
    if head < hdr.number then
      let rest := hc.delete (hdr.hash crypto)
      HeaderChain.unwind head fuel rest (rest.getHeader hdr.parentHash (hdr.number - 1))
    else (hc, some hdr)
  | _, hc, hdr => (hc, hdr)

/-- The loop of `SetHead` over the canonical numbers above the new head. -/
def rollBack (head : Nat) : Nat → ExtTreeMap Nat Hash → ExtTreeMap Nat Hash
  | 0, canonical => canonical
  | i + 1, canonical =>
    if head < i + 1 then rollBack head i (canonical.erase (i + 1)) else canonical

def HeaderChain.setHead (hc : HeaderChain) (head : Nat) : HeaderChain :=
  let height := hc.currentHeader.number
  let (rest, left) := hc.unwind crypto head (height + 1) (some hc.currentHeader)
  let current := left.getD hc.genesisHeader
  { rest with
    canonical := rollBack head height rest.canonical
    currentHeader := current
    currentHeaderHash := current.hash crypto }

def newHeaderChain (genesis : Header) (td : Nat) : HeaderChain where
  genesisHeader := genesis
  headers := (∅ : ExtTreeMap Hash Header).insert (genesis.hash crypto) genesis
  tds := (∅ : ExtTreeMap Hash (Nat × Nat)).insert (genesis.hash crypto) (0, td)
  canonical := (∅ : ExtTreeMap Nat Hash).insert 0 (genesis.hash crypto)
  currentHeader := genesis
  currentHeaderHash := genesis.hash crypto

end

/-! ## Reading the tables -/

variable {td : Nat} {header : Header}

variable {canonical : ExtTreeMap Nat Hash}

section
variable {hc : HeaderChain} {hash : Hash} {number : Nat}

theorem readAt_eq_some {V : Type} {numberOf : V → Nat} {table : ExtTreeMap Hash V} {entry : V} :
    readAt numberOf table hash number = some entry ↔
      table[hash]? = some entry ∧ numberOf entry = number := by
  unfold readAt
  split
  · rename_i stored found
    rw [found]
    constructor
    · intro read
      split at read
      · cases read
        exact ⟨rfl, ‹_›⟩
      · cases read
    · rintro ⟨same, rfl⟩
      cases same
      exact if_pos rfl
  · rename_i missing
    simp [missing]

theorem readAt_fst_eq_some {table : ExtTreeMap Hash (Nat × Nat)} :
    (readAt Prod.fst table hash number).map Prod.snd = some td ↔
      table[hash]? = some (number, td) := by
  simp only [Option.map_eq_some_iff, readAt_eq_some]
  constructor
  · rintro ⟨⟨stored, weight⟩, ⟨found, rfl⟩, rfl⟩
    exact found
  · intro found
    exact ⟨_, ⟨found, rfl⟩, rfl⟩

theorem getHeader_eq_some :
    hc.getHeader hash number = some header ↔
      hc.headers[hash]? = some header ∧ header.number = number :=
  readAt_eq_some

theorem getTd_eq_some :
    hc.getTd hash number = some td ↔ hc.tds[hash]? = some (number, td) :=
  readAt_fst_eq_some

theorem getCanonicalHash_eq_iff
    (nonzero : hash ≠ FixedBytes.zero 32) :
    getCanonicalHash canonical number = hash ↔ canonical[number]? = some hash := by
  unfold getCanonicalHash
  cases canonical[number]? with
  | none => simp [nonzero.symm]
  | some found => simp

end

/-! ## The loops over the canonical numbers -/

variable {hash : Hash} {number : Nat}

section
variable {canonical : ExtTreeMap Nat Hash}

theorem le_highest (used : canonical[number]? = some hash) :
    number ≤ highest canonical := by
  have member : number ∈ canonical.keys := by
    rw [ExtTreeMap.mem_keys, ExtTreeMap.mem_iff_isSome_getElem?, used]
    rfl
  unfold highest
  generalize canonical.keys = keys at member
  induction keys with
  | nil => cases member
  | cons first rest ih =>
    rcases List.mem_cons.mp member with rfl | later
    · exact le_max_left _ _
    · exact (ih later).trans (le_max_right _ _)

/-- Where the numbers up to `top` are used without a gap, all of them from `i` on go. -/
theorem getElem?_deleteAbove (top fuel i : Nat)
    (used : ∀ m, i ≤ m → m ≤ top → ∃ hash, canonical[m]? = some hash ∧ hash ≠ FixedBytes.zero 32)
    (unused : ∀ m, top < m → canonical[m]? = none) (enough : top < i + fuel) (m : Nat) :
    (deleteAbove fuel i canonical)[m]? = if i ≤ m then none else canonical[m]? := by
  induction fuel generalizing i canonical with
  | zero =>
    rw [deleteAbove]
    split
    · exact unused m (by omega)
    · rfl
  | succ fuel ih =>
    rw [deleteAbove]
    rcases Nat.lt_or_ge top i with beyond | within
    · have missing := unused i beyond
      rw [if_pos (by simp [getCanonicalHash, missing])]
      split
      · exact unused m (by omega)
      · rfl
    · obtain ⟨hash, found, nonzero⟩ := used i (le_refl i) within
      have entry := (getCanonicalHash_eq_iff nonzero).mpr found
      rw [entry, if_neg nonzero, ih (i + 1)]
      · by_cases same : i = m
        · simp [same]
        · have later : i + 1 ≤ m ↔ i ≤ m := by omega
          simp [ExtTreeMap.getElem?_erase, same, later]
      · intro m above below
        rw [get_erase, if_neg (by omega)]
        exact used m (by omega) below
      · intro m above
        rw [ExtTreeMap.getElem?_erase]
        split
        · rfl
        · exact unused m above
      · omega

theorem getElem?_rollBack (head i m : Nat) :
    (rollBack head i canonical)[m]? = if head < m ∧ m ≤ i then none else canonical[m]? := by
  induction i generalizing canonical with
  | zero =>
    rw [rollBack, if_neg (by omega)]
  | succ i ih =>
    rw [rollBack]
    split
    · rw [ih, get_erase]
      split_ifs <;> first | rfl | omega
    · rw [if_neg (by omega)]

end

/-! ## What is stored -/

def HeaderChain.up (hc : HeaderChain) (hash : Hash) : Option (Hash × Nat) :=
  hc.headers[hash]?.map fun header => (header.parentHash, header.number)

theorem up_eq_some {hc : HeaderChain} {parent : Hash} :
    hc.up hash = some (parent, number) ↔
      ∃ header, hc.headers[hash]? = some header ∧ header.parentHash = parent ∧
        header.number = number := by
  simp [HeaderChain.up]

section
variable (crypto : Crypto)

/-- The tables hold headers under their own hashes, each with its total difficulty. -/
structure Sound (hc : HeaderChain) : Prop where
  hashed : ∀ (hash : Hash) (header : Header), hc.headers[hash]? = some header →
    header.hash crypto = hash
  nonzero : ∀ (hash : Hash) (header : Header), hc.headers[hash]? = some header →
    hash ≠ FixedBytes.zero 32
  weighed : ∀ (hash : Hash) (number : Nat), (∃ td, hc.tds[hash]? = some (number, td)) ↔
    ∃ header, hc.headers[hash]? = some header ∧ header.number = number
  bottom : ∀ (hash : Hash) (header : Header), hc.headers[hash]? = some header → header.number = 0 →
    hash = hc.genesisHeader.hash crypto
  linked : ∀ (hash : Hash) (header : Header), hc.headers[hash]? = some header → header.number ≠ 0 →
    header.parentHash ≠ FixedBytes.zero 32

variable {crypto} {hc : HeaderChain}

theorem Sound.delete (sound : Sound crypto hc) (hash : Hash) : Sound crypto (hc.delete hash) := by
  have kept : ∀ (other : Hash) (header : Header), (hc.delete hash).headers[other]? = some header →
      hc.headers[other]? = some header := by
    intro other header found
    rw [HeaderChain.delete, ExtTreeMap.getElem?_erase] at found
    split at found
    · cases found
    · exact found
  refine ⟨fun other header found => sound.hashed other header (kept _ _ found),
    fun other header found => sound.nonzero other header (kept _ _ found), ?_,
    fun other header found => sound.bottom other header (kept _ _ found),
    fun other header found => sound.linked other header (kept _ _ found)⟩
  intro other number
  by_cases same : hash = other
  · simp [HeaderChain.delete, same]
  · simpa [HeaderChain.delete, ExtTreeMap.getElem?_erase, same] using
      sound.weighed other number

/-- A header whose parent is known.  Headers of one hash may differ in what the hash leaves
out, the committed seals, but not in parent and number. -/
structure Admissible (crypto : Crypto) (hc : HeaderChain) (header : Header) : Prop where
  parent : (hc.parentTd header).isSome
  nonzero : header.hash crypto ≠ FixedBytes.zero 32
  unique : ∀ found, hc.up (header.hash crypto) = some found →
    found = (header.parentHash, header.number)

theorem Sound.parent_stored (sound : Sound crypto hc) (known : (hc.parentTd header).isSome) :
    ∃ number parent, header.number = number + 1 ∧ hc.headers[header.parentHash]? = some parent ∧
      parent.number = number := by
  obtain ⟨td, read⟩ := Option.isSome_iff_exists.mp known
  unfold HeaderChain.parentTd at read
  split at read
  · cases read
  · obtain ⟨parent, stored, height⟩ :=
      (sound.weighed _ _).mp ⟨td, getTd_eq_some.mp read⟩
    exact ⟨header.number - 1, parent, by omega, stored, height⟩

theorem getElem?_store (header : Header) (td : Nat) (hash : Hash) :
    (hc.store crypto header td).headers[hash]? =
      if header.hash crypto = hash then some header else hc.headers[hash]? := by
  simp [HeaderChain.store, ExtTreeMap.getElem?_insert]

theorem Sound.store (sound : Sound crypto hc) (fresh : Admissible crypto hc header) (td : Nat) :
    Sound crypto (hc.store crypto header td) := by
  obtain ⟨number, parent, positive, stored, _⟩ := sound.parent_stored fresh.parent
  constructor
  · intro hash other found
    rw [getElem?_store] at found
    split at found
    · cases found
      assumption
    · exact sound.hashed hash other found
  · intro hash other found
    rw [getElem?_store] at found
    split at found
    · rename_i same
      exact same ▸ fresh.nonzero
    · exact sound.nonzero hash other found
  · intro hash height
    rw [getElem?_store]
    by_cases same : header.hash crypto = hash
    · simp [HeaderChain.store, same]
    · simpa [HeaderChain.store, ExtTreeMap.getElem?_insert, same] using
        sound.weighed hash height
  · intro hash other found zero
    rw [getElem?_store] at found
    split at found
    · cases found
      omega
    · exact sound.bottom hash other found zero
  · intro hash other found higher
    rw [getElem?_store] at found
    split at found
    · cases found
      exact sound.nonzero _ _ stored
    · exact sound.linked hash other found higher

theorem up_store (fresh : Admissible crypto hc header) (td : Nat) {found : Hash × Nat}
    (stored : hc.up hash = some found) :
    (hc.store crypto header td).up hash = some found := by
  unfold HeaderChain.up at stored ⊢
  rw [getElem?_store]
  split
  · rename_i same
    rw [← same] at stored
    rw [fresh.unique found stored]
    rfl
  · exact stored

end

/-! ## The walk from the parent of a new head -/

section
variable {crypto : Crypto} {hc : HeaderChain} {origin : Hash}

/-- The canonical numbers of a path, overwritten along another one, are those of the other. -/
theorem overwriteStale_rooted (sound : Sound crypto hc) {head : Hash} {top : Nat}
    (path : Rooted hc.up origin head top) (rooted : Rooted hc.up origin hash number)
    (index : ∀ m ≤ number, canonical[m]? = ancestorAt hc.up top head m) :
    ∃ rewritten, overwriteStale hc number hash canonical = some rewritten ∧
      ∀ m, rewritten[m]? =
        if m ≤ number then ancestorAt hc.up number hash m else canonical[m]? := by
  have meets : ∀ {hash number}, Rooted hc.up origin hash number →
      ∀ {canonical : ExtTreeMap Nat Hash},
      (∀ m ≤ number, canonical[m]? = ancestorAt hc.up top head m) →
      canonical[number]? = some hash → ∀ m, canonical[m]? =
        if m ≤ number then ancestorAt hc.up number hash m else canonical[m]? := by
    intro hash number _ canonical index met m
    split
    · rename_i below
      rw [index m below]
      exact path.ancestorAt_trans ((index number (le_refl _)).symm.trans met) below
    · rfl
  have nonzero : ∀ {hash number}, Rooted hc.up origin hash number → hash ≠ FixedBytes.zero 32 := by
    intro hash number rooted
    obtain ⟨parent, stored⟩ := rooted.stored
    obtain ⟨header, found, _⟩ := up_eq_some.mp stored
    exact sound.nonzero _ _ found
  induction rooted generalizing canonical with
  | origin stored =>
    have base : Rooted hc.up origin origin 0 := .origin stored
    have met : canonical[0]? = some origin := by
      rw [index 0 (le_refl 0), path.ancestorAt_zero]
    refine ⟨canonical, ?_, meets base index met⟩
    rw [overwriteStale, if_pos ((getCanonicalHash_eq_iff (nonzero base)).mpr met)]
  | @child hash parent number stored above ih =>
    have rooted : Rooted hc.up origin hash (number + 1) := .child stored above
    rw [overwriteStale]
    simp only [getCanonicalHash_eq_iff (nonzero rooted)]
    by_cases met : canonical[number + 1]? = some hash
    · rw [if_pos met]
      exact ⟨canonical, rfl, meets rooted index met⟩
    · obtain ⟨header, found, rfl, height⟩ := up_eq_some.mp stored
      rw [if_neg met, getHeader_eq_some.mpr ⟨found, height⟩]
      have lower : ∀ m ≤ number, (canonical.insert (number + 1) hash)[m]? =
          ancestorAt hc.up top head m := by
        intro m below
        rw [get_insert, if_neg (by omega)]
        exact index m (by omega)
      obtain ⟨rewritten, walked, path'⟩ := ih lower
      refine ⟨rewritten, walked, fun m => ?_⟩
      rw [path' m, get_insert]
      rcases Nat.lt_trichotomy m (number + 1) with below | rfl | beyond
      · rw [if_pos (by omega), if_pos (by omega), ancestorAt_parent stored (by omega)]
      · rw [if_neg (by omega), if_pos rfl, if_pos (le_refl _), ancestorAt_self]
      · rw [if_neg (by omega), if_neg (by omega), if_neg (by omega)]

/-- A walk that ends without a panic started at a rooted header. -/
theorem rooted_of_overwriteStale (sound : Sound crypto hc) (number : Nat)
    {rewritten : ExtTreeMap Nat Hash}
    (index : ∀ m ≤ number, ∀ found, canonical[m]? = some found → Rooted hc.up origin found m)
    (base : canonical[0]? = some (hc.genesisHeader.hash crypto))
    (nonzero : hash ≠ FixedBytes.zero 32)
    (walked : overwriteStale hc number hash canonical = some rewritten) :
    Rooted hc.up origin hash number := by
  induction number generalizing hash canonical with
  | zero =>
    rw [overwriteStale] at walked
    simp only [getCanonicalHash_eq_iff nonzero] at walked
    split at walked
    · rename_i met
      exact index 0 (le_refl 0) hash met
    · rename_i differs
      split at walked
      · cases walked
      · rename_i header read
        obtain ⟨found, height⟩ := getHeader_eq_some.mp read
        exact absurd (sound.bottom hash header found height ▸ base) differs
  | succ number ih =>
    rw [overwriteStale] at walked
    simp only [getCanonicalHash_eq_iff nonzero] at walked
    split at walked
    · rename_i met
      exact index (number + 1) (le_refl _) hash met
    · split at walked
      · cases walked
      · rename_i header read
        obtain ⟨found, height⟩ := getHeader_eq_some.mp read
        have stored : hc.up hash = some (header.parentHash, number + 1) :=
          up_eq_some.mpr ⟨header, found, rfl, height⟩
        refine .child stored (ih ?_ ?_ (sound.linked hash header found (by omega)) walked)
        · intro m below other entry
          rw [get_insert, if_neg (by omega)] at entry
          exact index m (by omega) other entry
        · rw [ExtTreeMap.getElem?_insert]
          simpa using base

end

/-! ## The index follows the current header -/

section Following
variable (crypto : Crypto)

/-- The canonical numbers are the ancestors of the current header, and nothing else. -/
def Indexed (hc : HeaderChain) : Prop :=
  ∀ m, hc.canonical[m]? = ancestorAt hc.up hc.currentHeader.number hc.currentHeaderHash m

structure Following (hc : HeaderChain) : Prop extends Sound crypto hc where
  own : hc.currentHeader.hash crypto = hc.currentHeaderHash
  current : hc.up hc.currentHeaderHash = some (hc.currentHeader.parentHash, hc.currentHeader.number)
  rooted : Rooted hc.up (hc.genesisHeader.hash crypto) hc.currentHeaderHash hc.currentHeader.number
  indexed : Indexed hc

variable {crypto} {hc : HeaderChain}

theorem following_newHeaderChain (genesis : Header) (td : Nat) (ground : genesis.number = 0)
    (nonzero : genesis.hash crypto ≠ FixedBytes.zero 32) :
    Following crypto (newHeaderChain crypto genesis td) := by
  have only : ∀ (hash : Hash) (header : Header),
      (newHeaderChain crypto genesis td).headers[hash]? = some header →
        header = genesis ∧ genesis.hash crypto = hash := by
    intro hash header found
    simp only [newHeaderChain, get_insert] at found
    split at found
    · cases found
      exact ⟨rfl, ‹_›⟩
    · simp at found
  have current : (newHeaderChain crypto genesis td).headers[genesis.hash crypto]? = some genesis := by
    simp [newHeaderChain]
  refine ⟨⟨?_, ?_, ?_, ?_, ?_⟩, rfl, up_eq_some.mpr ⟨genesis, current, rfl, rfl⟩, ?_, ?_⟩
  · rintro hash header found
    obtain ⟨rfl, same⟩ := only hash header found
    exact same
  · rintro hash header found
    exact (only hash header found).2 ▸ nonzero
  · intro hash number
    by_cases same : genesis.hash crypto = hash
    · simp [newHeaderChain, same, ground]
    · simp [newHeaderChain, same]
  · rintro hash header found _
    exact (only hash header found).2.symm
  · rintro hash header found positive
    obtain ⟨rfl, _⟩ := only hash header found
    exact absurd ground positive
  · show Rooted _ (genesis.hash crypto) (genesis.hash crypto) genesis.number
    rw [ground]
    exact .origin (up_eq_some.mpr ⟨genesis, current, rfl, ground⟩)
  · intro m
    show ((∅ : ExtTreeMap Nat Hash).insert 0 (genesis.hash crypto))[m]? =
      ancestorAt _ genesis.number (genesis.hash crypto) m
    rw [ground, ancestorAt, get_insert]
    simp only [eq_comm (a := 0), ExtTreeMap.getElem?_empty]

/-! ### Writing a header -/

theorem rooted_store (fresh : Admissible crypto hc header) (td : Nat) {origin hash : Hash}
    {number : Nat} (rooted : Rooted hc.up origin hash number) :
    Rooted (hc.store crypto header td).up origin hash number ∧
      ∀ m, ancestorAt (hc.store crypto header td).up number hash m =
        ancestorAt hc.up number hash m :=
  rooted.mono fun _ _ _ _ _ stored => up_store fresh td stored

/-- What is rooted below a header is rooted without it. -/
theorem rooted_of_store {origin hash : Hash} {number : Nat} (lower : number < header.number)
    (rooted : Rooted (hc.store crypto header td).up origin hash number) :
    Rooted hc.up origin hash number := by
  suffices known : ∀ height ≤ number, ∀ other parent,
      Rooted (hc.store crypto header td).up origin other height →
      (hc.store crypto header td).up other = some (parent, height) →
      hc.up other = some (parent, height) from (rooted.mono known).1
  intro height below other parent _ stored
  obtain ⟨found, read, rfl, level⟩ := up_eq_some.mp stored
  rw [getElem?_store] at read
  split at read
  · cases read
    omega
  · exact up_eq_some.mpr ⟨found, read, rfl, level⟩

/-- All canonical numbers above the new head go. -/
theorem Following.deleteAbove (following : Following crypto hc) (i m : Nat) :
    (deleteAbove (highest hc.canonical) (i + 1) hc.canonical)[m]? =
      if m ≤ i then hc.canonical[m]? else none := by
  have own := following.indexed hc.currentHeader.number
  rw [ancestorAt_self] at own
  have enough := le_highest own
  rw [getElem?_deleteAbove hc.currentHeader.number]
  · split_ifs <;> first | rfl | omega
  · intro m _ below
    obtain ⟨a, found, rooted⟩ := following.rooted.exists_ancestorAt below
    obtain ⟨parent, stored⟩ := rooted.stored
    obtain ⟨header, read, _⟩ := up_eq_some.mp stored
    exact ⟨a, (following.indexed m).trans found, following.nonzero _ _ read⟩
  · intro m above
    rw [following.indexed m, ancestorAt_above _ _ above]
  · omega

/-- A header on a rooted parent is given the canonical numbers of its ancestors. -/
theorem Following.reroute (following : Following crypto hc) (fresh : Admissible crypto hc header)
    (td : Nat)
    (attached : Rooted hc.up (hc.genesisHeader.hash crypto) header.parentHash (header.number - 1)) :
    ∃ canonical, (hc.store crypto header td).reroute crypto header = some canonical ∧
      ∀ m, canonical[m]? =
        ancestorAt (hc.store crypto header td).up header.number (header.hash crypto) m := by
  obtain ⟨number, _, positive, _⟩ := following.parent_stored fresh.parent
  rw [positive, Nat.add_sub_cancel] at attached
  obtain ⟨path, same⟩ := rooted_store fresh td following.rooted
  obtain ⟨parentPath, _⟩ := rooted_store fresh td attached
  have left : ∀ m ≤ number,
      (HeaderIndex.deleteAbove (highest hc.canonical) (header.number + 1) hc.canonical)[m]? =
        ancestorAt (hc.store crypto header td).up hc.currentHeader.number hc.currentHeaderHash m := by
    intro m below
    rw [following.deleteAbove, if_pos (by omega), same m]
    exact following.indexed m
  obtain ⟨rewritten, walked, entries⟩ :=
    overwriteStale_rooted (following.store fresh td) path parentPath left
  have own : (hc.store crypto header td).up (header.hash crypto) =
      some (header.parentHash, header.number) :=
    up_eq_some.mpr ⟨header, by rw [getElem?_store, if_pos rfl], rfl, rfl⟩
  refine ⟨rewritten.insert header.number (header.hash crypto), ?_, fun m => ?_⟩
  · rw [HeaderChain.reroute, positive, Nat.add_sub_cancel, ← positive]
    exact congrArg (Option.map _) walked
  · rw [get_insert, entries m, following.deleteAbove, positive]
    rcases Nat.lt_trichotomy m (number + 1) with below | rfl | above
    · rw [if_neg (by omega), if_pos (by omega), ancestorAt_parent own (by omega)]
    · rw [if_pos rfl, ancestorAt_self]
    · rw [if_neg (by omega), if_neg (by omega), if_neg (by omega), ancestorAt_above _ _ above]

/-- Only a header on a rooted parent can be made the head. -/
theorem Following.attached_of_reroute (following : Following crypto hc)
    (fresh : Admissible crypto hc header)
    (rerouted : (hc.store crypto header td).reroute crypto header = some canonical) :
    Rooted hc.up (hc.genesisHeader.hash crypto) header.parentHash (header.number - 1) := by
  obtain ⟨number, parent, positive, stored, _⟩ := following.parent_stored fresh.parent
  obtain ⟨rewritten, walked, _⟩ := Option.map_eq_some_iff.mp rerouted
  obtain ⟨path, same⟩ := rooted_store fresh td following.rooted
  have rooted : Rooted (hc.store crypto header td).up (hc.genesisHeader.hash crypto)
      header.parentHash (header.number - 1) := by
    refine rooted_of_overwriteStale (following.store fresh td) _ ?_ ?_
      (following.nonzero _ _ stored) walked
    · intro m below found entry
      have kept := (following.deleteAbove header.number m).symm.trans entry
      rw [if_pos (by omega), following.indexed m, ← same m] at kept
      have within : m ≤ hc.currentHeader.number := by
        by_contra above
        rw [ancestorAt_above _ _ (by omega)] at kept
        cases kept
      obtain ⟨a, ancestor, rooted⟩ := path.exists_ancestorAt within
      rw [kept] at ancestor
      cases ancestor
      exact rooted
    · refine (following.deleteAbove header.number 0).trans ?_
      rw [if_pos (Nat.zero_le _), following.indexed 0, following.rooted.ancestorAt_zero]
      rfl
  exact rooted_of_store (by omega) rooted

/-- The header is at least as heavy as the current one, and is made the head. -/
def HeaderChain.leads (hc : HeaderChain) (header : Header) (coin : Bool) : Bool :=
  match hc.parentTd header, hc.getTd hc.currentHeaderHash hc.currentHeader.number with
  | some ptd, some localTd => wins (header.difficulty + ptd) localTd coin
  | _, _ => false

theorem Following.weight (following : Following crypto hc) :
    ∃ localTd, hc.getTd hc.currentHeaderHash hc.currentHeader.number = some localTd := by
  obtain ⟨header, stored, _, height⟩ := up_eq_some.mp following.current
  obtain ⟨localTd, found⟩ := (following.weighed _ _).mpr ⟨header, stored, height⟩
  exact ⟨localTd, getTd_eq_some.mpr found⟩

theorem Following.writeHeader (following : Following crypto hc)
    (fresh : Admissible crypto hc header) {coin : Bool}
    (attached : hc.leads header coin = true → Rooted hc.up (hc.genesisHeader.hash crypto) header.parentHash (header.number - 1)) :
    ∃ result, hc.writeHeader crypto header coin = .ok result ∧ Following crypto result.1 := by
  obtain ⟨ptd, parentTd⟩ := Option.isSome_iff_exists.mp fresh.parent
  obtain ⟨localTd, weight⟩ := following.weight
  obtain ⟨number, _, positive, _⟩ := following.parent_stored fresh.parent
  have sound := following.store fresh (header.difficulty + ptd)
  rw [HeaderChain.writeHeader, parentTd, weight]
  dsimp only
  rw [HeaderChain.leads, parentTd, weight] at attached
  by_cases lead : wins (header.difficulty + ptd) localTd coin = true
  · have root := attached lead
    obtain ⟨canonical, rerouted, entries⟩ := following.reroute fresh (header.difficulty + ptd) root
    rw [if_pos lead, rerouted]
    have own : (hc.store crypto header (header.difficulty + ptd)).up (header.hash crypto) =
        some (header.parentHash, header.number) :=
      up_eq_some.mpr ⟨header, by rw [getElem?_store, if_pos rfl], rfl, rfl⟩
    refine ⟨_, rfl, ⟨{ sound with },
      rfl, own, ?_, entries⟩⟩
    show Rooted (hc.store crypto header (header.difficulty + ptd)).up _ (header.hash crypto)
      header.number
    rw [positive] at root own ⊢
    exact .child own (rooted_store fresh _ root).1
  · rw [if_neg lead]
    obtain ⟨path, same⟩ := rooted_store fresh (header.difficulty + ptd) following.rooted
    exact ⟨_, rfl, sound, following.own, up_store fresh _ following.current, path,
      fun m => (following.indexed m).trans (same m).symm⟩

theorem Following.attached_of_writeHeader (following : Following crypto hc)
    (fresh : Admissible crypto hc header) {coin : Bool} {result : HeaderChain × WriteStatus}
    (written : hc.writeHeader crypto header coin = .ok result) (lead : hc.leads header coin = true) :
    Rooted hc.up (hc.genesisHeader.hash crypto) header.parentHash (header.number - 1) := by
  obtain ⟨ptd, parentTd⟩ := Option.isSome_iff_exists.mp fresh.parent
  obtain ⟨localTd, weight⟩ := following.weight
  rw [HeaderChain.leads, parentTd, weight] at lead
  rw [HeaderChain.writeHeader, parentTd, weight] at written
  dsimp only at written lead
  rw [if_pos lead] at written
  split at written
  · cases written
  · rename_i canonical rerouted
    exact following.attached_of_reroute fresh rerouted

/-! ### Rewinding -/

/-- What is stored at no more than a height stays, with its ancestors. -/
theorem rooted_of_kept {rest : HeaderChain} {origin : Hash}
    (kept : ∀ other parent height, height ≤ number → hc.up other = some (parent, height) →
      rest.up other = some (parent, height))
    (rooted : Rooted hc.up origin hash number) :
    Rooted rest.up origin hash number ∧
      ∀ m, ancestorAt rest.up number hash m = ancestorAt hc.up number hash m :=
  rooted.mono fun height below other parent _ stored => kept other parent height below stored

/-- What the loop of `SetHead` leaves: the ancestor at the new height, and every header
up to that height. -/
structure Unwound (crypto : Crypto) (head : Nat) (hc rest : HeaderChain) (hdr left : Header) :
    Prop where
  sound : Sound crypto rest
  genesis : rest.genesisHeader = hc.genesisHeader
  canonical : rest.canonical = hc.canonical
  height : left.number = min hdr.number head
  ancestor : ancestorAt hc.up hdr.number (hdr.hash crypto) left.number = some (left.hash crypto)
  stored : rest.up (left.hash crypto) = some (left.parentHash, left.number)
  kept : ∀ hash parent number, number ≤ head → hc.up hash = some (parent, number) →
    rest.up hash = some (parent, number)

theorem unwind_rooted (head fuel : Nat) (sound : Sound crypto hc) {origin : Hash} {hdr : Header}
    (stored : hc.up (hdr.hash crypto) = some (hdr.parentHash, hdr.number))
    (rooted : Rooted hc.up origin (hdr.hash crypto) hdr.number) (enough : hdr.number < fuel) :
    ∃ rest left, hc.unwind crypto head fuel (some hdr) = (rest, some left) ∧
      Unwound crypto head hc rest hdr left := by
  induction fuel generalizing hc hdr with
  | zero => omega
  | succ fuel ih =>
    rw [HeaderChain.unwind]
    by_cases above : head < hdr.number
    · obtain ⟨number, positive⟩ : ∃ number, hdr.number = number + 1 :=
        ⟨hdr.number - 1, by omega⟩
      rw [positive] at rooted stored
      have parentRooted : Rooted hc.up origin hdr.parentHash number := by
        cases rooted with
        | child found above =>
          rw [stored] at found
          cases found
          exact above
      obtain ⟨_, parentUp⟩ := parentRooted.stored
      obtain ⟨parent, read, rfl, level⟩ := up_eq_some.mp parentUp
      -- Only a header above the new head is deleted.
      have kept : ∀ hash parent height, height ≤ number → hc.up hash = some (parent, height) →
          (hc.delete (hdr.hash crypto)).up hash = some (parent, height) := by
        intro hash parent height below found
        rw [HeaderChain.up, HeaderChain.delete, get_erase, if_neg]
        · exact found
        · rintro rfl
          rw [stored] at found
          cases found
          omega
      have parentHash := sound.hashed _ _ read
      have parentKept := kept _ _ _ (le_refl _) parentUp
      obtain ⟨parent', read', _, level'⟩ := up_eq_some.mp parentKept
      obtain rfl : parent' = parent := by
        rw [HeaderChain.delete, ExtTreeMap.getElem?_erase] at read'
        split at read'
        · cases read'
        · exact Option.some.inj (read'.symm.trans read)
      obtain ⟨parentRooted', same⟩ := rooted_of_kept kept parentRooted
      rw [if_pos above, positive, Nat.add_sub_cancel]
      dsimp only
      rw [getHeader_eq_some.mpr ⟨read', level⟩]
      rw [← parentHash, ← level] at parentKept parentRooted'
      obtain ⟨rest, left, ran, unwound⟩ := ih (sound.delete _) parentKept parentRooted' (by omega)
      have height := unwound.height
      refine ⟨rest, left, ran, unwound.sound, unwound.genesis, unwound.canonical, by omega, ?_,
        unwound.stored, ?_⟩
      · have ancestor := unwound.ancestor
        rw [level, parentHash, same] at ancestor
        rw [positive, ancestorAt_parent stored (by omega), ancestor]
      · intro hash parent height below found
        exact unwound.kept hash parent height below (kept hash parent height (by omega) found)
    · rw [if_neg above]
      have height : hdr.number = min hdr.number head := by omega
      exact ⟨hc, hdr, rfl, sound, rfl, rfl, height, ancestorAt_self _ _ _, stored,
        fun _ _ _ _ found => found⟩

theorem Following.setHead (following : Following crypto hc) (head : Nat) :
    Following crypto (hc.setHead crypto head) := by
  have own := following.own
  obtain ⟨rest, left, ran, unwound⟩ := unwind_rooted head (hc.currentHeader.number + 1)
    following.toSound (own.symm ▸ following.current) (own.symm ▸ following.rooted) (by omega)
  obtain ⟨sound, genesis, canonical, height, ancestor, stored, kept⟩ := unwound
  rw [own] at ancestor
  have lower : left.number ≤ hc.currentHeader.number := by omega
  obtain ⟨a, found, rooted⟩ := following.rooted.exists_ancestorAt lower
  rw [ancestor] at found
  cases found
  obtain ⟨rooted', same⟩ := rooted_of_kept
    (fun hash parent number below found => kept hash parent number (by omega) found) rooted
  rw [HeaderChain.setHead, ran]
  refine ⟨{ sound with }, rfl, stored,
    ?_, ?_⟩
  · rw [genesis]
    exact rooted'
  · intro m
    show (rollBack head hc.currentHeader.number rest.canonical)[m]? =
      ancestorAt rest.up left.number (left.hash crypto) m
    rw [getElem?_rollBack, canonical, following.indexed m, same m]
    rcases Nat.lt_or_ge left.number m with above | below
    · rw [ancestorAt_above _ _ above]
      split
      · rfl
      · exact ancestorAt_above _ _ (by omega)
    · rw [if_neg (by omega), following.rooted.ancestorAt_trans ancestor below]

end Following

/-! ## Every sequence of calls -/

section
variable (crypto : Crypto)

inductive Call where
  | writeHeader (header : Header) (coin : Bool)
  | setHead (head : Nat)

def step (hc : HeaderChain) : Call → Except WriteError HeaderChain
  | .writeHeader header coin => (hc.writeHeader crypto header coin).map Prod.fst
  | .setHead head => .ok (hc.setHead crypto head)

/-- The calls in question: headers of positive difficulty whose parent is known. -/
def Allowed (hc : HeaderChain) : Call → Prop
  | .writeHeader header _ => Admissible crypto hc header ∧ 1 ≤ header.difficulty
  | .setHead _ => True

def system (genesis : Header) (td : Nat) : System HeaderChain Call where
  init hc := hc = newHeaderChain crypto genesis td ∧ genesis.number = 0 ∧
    genesis.hash crypto ≠ FixedBytes.zero 32
  enabled := Allowed crypto
  next hc call :=
    match step crypto hc call with
    | .ok next => next
    | .error _ => hc

/-- A header that is made the head stands on a chain of stored headers down to genesis. -/
def Attached (hc : HeaderChain) : Call → Prop
  | .writeHeader header coin => hc.leads header coin = true →
      Rooted hc.up (hc.genesisHeader.hash crypto) header.parentHash (header.number - 1)
  | .setHead _ => True

variable {crypto}

theorem Following.step {hc : HeaderChain} (following : Following crypto hc) {call : Call}
    (allowed : Allowed crypto hc call) (attached : Attached crypto hc call) :
    ∃ next, HeaderIndex.step crypto hc call = .ok next ∧ Following crypto next := by
  cases call with
  | writeHeader header coin =>
    obtain ⟨result, written, follows⟩ := following.writeHeader allowed.1 attached
    exact ⟨result.1, by rw [HeaderIndex.step, written]; rfl, follows⟩
  | setHead head => exact ⟨_, rfl, following.setHead head⟩

theorem following_of_reachable {genesis : Header} {hc : HeaderChain}
    (reached : Reachable (system crypto genesis td) (Attached crypto) hc) :
    Following crypto hc := by
  apply reached.invariant
  · rintro hc ⟨rfl, ground, nonzero⟩
    exact following_newHeaderChain genesis td ground nonzero
  · intro hc call following allowed attached
    obtain ⟨next, ran, follows⟩ := following.step allowed attached
    simp only [system, ran]
    exact follows

/-- As long as every new head stood on stored headers, the canonical numbers are those of
the ancestors of the current header and nothing else, and the next call runs without a
panic exactly where it keeps to that condition. -/
theorem canonical_follows_current {genesis : Header} {td : Nat} {hc : HeaderChain}
    (reached : Reachable (system crypto genesis td) (Attached crypto) hc) :
    hc.currentHeaderHash = hc.currentHeader.hash crypto ∧ Indexed hc ∧
      ∀ call, Allowed crypto hc call →
        ((∃ next, step crypto hc call = .ok next) ↔ Attached crypto hc call) := by
  have following := following_of_reachable reached
  refine ⟨following.own.symm, following.indexed, ?_⟩
  intro call allowed
  constructor
  · rintro ⟨next, ran⟩
    cases call with
    | writeHeader header coin =>
      intro lead
      rw [step] at ran
      cases written : hc.writeHeader crypto header coin with
      | error error =>
        rw [written] at ran
        cases ran
      | ok result => exact following.attached_of_writeHeader allowed.1 written lead
    | setHead head => trivial
  · intro attached
    obtain ⟨next, ran, _⟩ := following.step allowed attached
    exact ⟨next, ran⟩

/-- `SetHead` goes back to the ancestor at the height, if it is below the head: up to that
height every header and every canonical number stays, and above it no number is used. -/
theorem setHead_exact {genesis : Header} {td : Nat} {hc : HeaderChain}
    (reached : Reachable (system crypto genesis td) (Attached crypto) hc) (head : Nat) :
    (hc.setHead crypto head).currentHeader.number = min hc.currentHeader.number head ∧
      hc.canonical[min hc.currentHeader.number head]? =
        some (hc.setHead crypto head).currentHeaderHash ∧
      (∀ m, (hc.setHead crypto head).canonical[m]? =
        if m ≤ head then hc.canonical[m]? else none) ∧
      ∀ hash parent number, number ≤ head → hc.up hash = some (parent, number) →
        (hc.setHead crypto head).up hash = some (parent, number) := by
  have following := following_of_reachable reached
  have own := following.own
  obtain ⟨rest, left, ran, unwound⟩ := unwind_rooted head (hc.currentHeader.number + 1)
    following.toSound (own.symm ▸ following.current) (own.symm ▸ following.rooted) (by omega)
  have ancestor := unwound.ancestor
  rw [own, ← following.indexed, unwound.height] at ancestor
  rw [HeaderChain.setHead, ran]
  refine ⟨unwound.height, ancestor, fun m => ?_, unwound.kept⟩
  show (rollBack head hc.currentHeader.number rest.canonical)[m]? = _
  rw [getElem?_rollBack, unwound.canonical, following.indexed m]
  split
  · rw [if_neg (by omega)]
  · split
    · rfl
    · exact ancestorAt_above _ _ (by omega)

instance (hc : HeaderChain) (header : Header) : Decidable (Admissible crypto hc header) :=
  decidable_of_iff ((hc.parentTd header).isSome ∧ header.hash crypto ≠ FixedBytes.zero 32 ∧
      ∀ found ∈ hc.up (header.hash crypto), found = (header.parentHash, header.number))
    ⟨fun ⟨parent, nonzero, unique⟩ => ⟨parent, nonzero, unique⟩,
      fun ⟨parent, nonzero, unique⟩ => ⟨parent, nonzero, unique⟩⟩

instance (hc : HeaderChain) : (call : Call) → Decidable (Allowed crypto hc call)
  | .writeHeader header _ =>
    inferInstanceAs (Decidable (Admissible crypto hc header ∧ 1 ≤ header.difficulty))
  | .setHead _ => .isTrue trivial

instance (hc : HeaderChain) : (call : Call) → Decidable (Attached crypto hc call)
  | .writeHeader header coin => inferInstanceAs (Decidable (hc.leads header coin = true →
      Rooted hc.up (hc.genesisHeader.hash crypto) header.parentHash (header.number - 1)))
  | .setHead _ => .isTrue trivial

end

/-! ## Two forks -/

def forkHeader (parentHash : Hash) (number difficulty : Nat) (nonce : UInt8) : Header where
  parentHash := parentHash
  uncleHash := FixedBytes.zero 32
  signature := FixedBytes.zero 65
  coinbase := zeroAddress
  root := FixedBytes.zero 32
  txHash := FixedBytes.zero 32
  receiptHash := FixedBytes.zero 32
  dposContext := ⟨FixedBytes.zero 32, FixedBytes.zero 32, FixedBytes.zero 32, FixedBytes.zero 32,
    FixedBytes.zero 32⟩
  bloom := FixedBytes.zero 256
  difficulty := difficulty
  number := number
  gasLimit := 0
  gasUsed := 0
  time := number
  extra := []
  mixDigest := FixedBytes.zero 32
  nonce := FixedBytes.setBytes 8 [nonce]

def forkGenesis : Header := forkHeader (FixedBytes.zero 32) 0 1 0
def forkFirst : Header := forkHeader (forkGenesis.hash plainCrypto) 1 1 1
def forkHead : Header := forkHeader (forkFirst.hash plainCrypto) 2 2 2
def forkSide : Header := forkHeader (forkFirst.hash plainCrypto) 2 1 3
def forkSideChild : Header := forkHeader (forkSide.hash plainCrypto) 3 1 4

def forkCalls (target : Nat) : List Call :=
  [.writeHeader forkFirst false, .writeHeader forkHead false, .writeHeader forkSide false,
    .setHead target]

def forkSystem : System HeaderChain Call := system plainCrypto forkGenesis 1

def forkStart : HeaderChain := newHeaderChain plainCrypto forkGenesis 1

theorem forkStart_initial : forkSystem.init forkStart := by
  refine ⟨rfl, rfl, ?_⟩
  decide +kernel

instance (hc : HeaderChain) (call : Call) : Decidable (forkSystem.enabled hc call) :=
  inferInstanceAs (Decidable (Allowed plainCrypto hc call))

/-- After a rewind to the first header the side fork may become canonical. -/
theorem canonical_follows_current_fork :
    Indexed ((forkCalls 1).foldl forkSystem.next forkStart) ∧
      ∃ next, step plainCrypto ((forkCalls 1).foldl forkSystem.next forkStart)
        (.writeHeader forkSideChild false) = .ok next := by
  have admitted : Admits forkSystem (Attached plainCrypto) forkStart (forkCalls 1) := by
    decide +kernel
  obtain ⟨_, indexed, runs⟩ := canonical_follows_current
    (Reachable.run (.init forkStart_initial) (forkCalls 1) admitted)
  refine ⟨indexed, (runs _ ?_).mpr ?_⟩
  · decide +kernel
  · decide +kernel

theorem setHead_exact_fork :
    (((forkCalls 2).foldl forkSystem.next forkStart).setHead plainCrypto 1).currentHeader.number =
      1 := by
  have admitted : Admits forkSystem (Attached plainCrypto) forkStart (forkCalls 2) := by
    decide +kernel
  have reached := Reachable.run (.init forkStart_initial) (forkCalls 2) admitted
  refine (setHead_exact reached 1).1.trans ?_
  decide +kernel

theorem eq_panicked {outcome : Except WriteError (HeaderChain × WriteStatus)}
    (failed : outcome matches .error .panicked) : outcome = .error .panicked := by
  rcases outcome with (_ | _) | _
  · cases failed
  · rfl
  · cases failed

/-- After a rewind to genesis the side fork stands on a header that is gone: making its
child the head panics. -/
theorem forkSideChild_panics :
    Reachable forkSystem (fun _ _ => True) ((forkCalls 0).foldl forkSystem.next forkStart) ∧
      Allowed plainCrypto ((forkCalls 0).foldl forkSystem.next forkStart)
        (.writeHeader forkSideChild false) ∧
      ((forkCalls 0).foldl forkSystem.next forkStart).writeHeader plainCrypto forkSideChild false =
        .error .panicked := by
  have admitted : Admits forkSystem (fun _ _ => True) forkStart (forkCalls 0) := by
    decide +kernel
  refine ⟨Reachable.run (.init forkStart_initial) (forkCalls 0) admitted, ?_, ?_⟩
  · decide +kernel
  · apply eq_panicked
    decide +kernel

end Linkeye.Core.HeaderIndex
