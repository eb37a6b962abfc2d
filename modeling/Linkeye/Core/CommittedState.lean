import Linkeye.Core.ExactUndo

/-!
# The committed state

A state that is opened again at the root that `Commit(false)` returned shows every
account as the state showed it before.  What is written is decided by dirty marks, and
`CreateAccount` on an existing account leaves none: its journal entry marks no address.
Where such a reset stands at `Finalise` or `Commit` and nothing else marks the account,
the old account stays in the trie.
-/

set_option autoImplicit false

namespace Linkeye.Core.CommittedState

open Std Common.Types
open Journaling (ripemd)
open Rewind (getD_bump getD_drop)
open StateObjects StateMoves ExactUndo Lib.Runs Lib.Maps

/-! ## What the database holds -/

structure Available (db : Database) (data : Account) : Prop where
  root : data.root = .empty ∨ data.root ∈ db.storages
  code : data.codeHash = [] ∨ data.codeHash ∈ db.codes

structure Grows (db db' : Database) : Prop where
  storages : ∀ root ∈ db.storages, root ∈ db'.storages
  codes : ∀ code ∈ db.codes, code ∈ db'.codes

theorem Grows.refl (db : Database) : Grows db db := ⟨fun _ member => member, fun _ member => member⟩

variable {db : Database}

theorem Grows.trans {db' db'' : Database} (first : Grows db db') (second : Grows db' db'') :
    Grows db db'' :=
  ⟨fun root member => second.storages root (first.storages root member),
    fun code member => second.codes code (first.codes code member)⟩

theorem Available.grow {db' : Database} {data : Account} (available : Available db data)
    (grows : Grows db db') : Available db' data :=
  ⟨available.root.imp_right (grows.storages _), available.code.imp_right (grows.codes _)⟩

def content (data : Account) : View where
  nonce := data.nonce
  balance := data.balance
  codeHash := data.codeHash
  code := data.codeHash
  storage := data.root.get
  suicided := false

/-- An object of an account that is there, whose storage trie is open or can be opened
and whose code is in the database or will be written to it. -/
structure Whole (db : Database) (obj : StateObject) : Prop where
  root : obj.trie = none → obj.data.root = .empty ∨ obj.data.root ∈ db.storages
  loaded : ∀ code, obj.code = some code → code = obj.data.codeHash
  code : obj.data.codeHash = [] ∨ obj.data.codeHash ∈ db.codes ∨
    (obj.code = some obj.data.codeHash ∧ obj.dirtyCode = true)
  dbErr : obj.dbErr = none
  suicided : obj.suicided = false
  deleted : obj.deleted = false

section
variable {db db' : Database} {obj obj' : StateObject} {data : Account}

theorem openStorageTrie_eq {root : Storage} (available : root = .empty ∨ root ∈ db.storages) :
    db.openStorageTrie root = some root := if_pos available

theorem Whole.newObject (available : Available db data) : Whole db (.newObject data) where
  root := fun _ => available.root
  loaded := nofun
  code := available.code.imp_right .inl
  dbErr := rfl
  suicided := rfl
  deleted := rfl

theorem Whole.opens {err : Option DbError} (whole : Whole db obj)
    (missing : err = obj.dbErr ∨ (obj.trie = none ∧ db.openStorageTrie obj.data.root = none)) :
    err = none := by
  rcases missing with same | ⟨closed, missing⟩
  · rw [same, whole.dbErr]
  · rw [openStorageTrie_eq (whole.root closed)] at missing
    cases missing

theorem Whole.grow (whole : Whole db obj) (grows : Grows db db') : Whole db' obj where
  __ := whole
  root := fun closed => (whole.root closed).imp_right (grows.storages _)
  code := whole.code.imp_right (Or.imp_left (grows.codes _))

theorem Whole.codeAnswer_eq (whole : Whole db obj) :
    codeAnswer db obj.code obj.data.codeHash = obj.data.codeHash := by
  rw [codeAnswer]
  cases loaded : obj.code with
  | some code => exact whole.loaded code loaded
  | none =>
    rcases whole.code with empty | stored | ⟨present, _⟩
    · rw [empty]
      exact contractCode_nil db
    · rw [Database.contractCode, if_pos stored]
      rfl
    · rw [loaded] at present
      cases present

theorem Whole.base_eq (whole : Whole db obj) : base db obj = obj.trie.getD obj.data.root := by
  rw [base]
  cases opened : obj.trie with
  | some tr => rfl
  | none =>
    rw [openStorageTrie_eq (whole.root opened)]
    rfl

theorem Whole.view_grow (whole : Whole db obj) (grows : Grows db db') :
    view db' obj = view db obj := by
  have later := whole.grow grows
  have storage : slot db' obj = slot db obj := by
    funext key
    rw [slot, slot, whole.base_eq, later.base_eq]
  exact View.ext rfl rfl rfl (later.codeAnswer_eq.trans whole.codeAnswer_eq.symm) storage rfl

theorem view_newObject (available : Available db data) :
    view db (.newObject data) = content data := by
  have whole := Whole.newObject available
  have storage : slot db (.newObject data) = data.root.get := by
    funext key
    rw [slot, whole.base_eq]
    simp [StateObject.newObject]
  exact View.ext rfl rfl rfl whole.codeAnswer_eq storage rfl

theorem Whole.refreshed (whole : Whole db obj) (fresh : Refreshed db obj obj') : Whole db obj' where
  root := by
    intro closed
    rw [fresh.data]
    apply whole.root
    rcases fresh.trie with same | opened
    · rw [← same, closed]
    · rw [opened] at closed
      cases closed
  loaded := by
    intro code loaded
    rw [fresh.data]
    rcases fresh.code with same | ⟨_, present, _⟩
    · exact whole.loaded code (same ▸ loaded)
    · rw [loaded] at present
      exact Option.some.inj present
  code := by
    rw [fresh.data, fresh.dirtyCode]
    rcases fresh.code with same | ⟨_, _, stored⟩
    · rw [same]
      exact whole.code
    · exact .inr (.inl stored)
  dbErr := by
    rcases fresh.dbErr with same | ⟨closed, missing⟩ | ⟨absent, nonempty, missing⟩
    · rw [same, whole.dbErr]
    · rw [openStorageTrie_eq (whole.root closed)] at missing
      cases missing
    · rcases whole.code with empty | stored | ⟨present, _⟩
      · exact absurd empty nonempty
      · exact absurd stored missing
      · rw [absent] at present
        cases present
  suicided := fresh.suicided.trans whole.suicided
  deleted := fresh.deleted.trans whole.deleted

def CodeBacked (db : Database) (code : Option Bytes) (codeHash : Bytes) : Prop :=
  (∀ c, code = some c → c = codeHash) ∧
    (codeHash = [] ∨ codeHash ∈ db.codes ∨ code = some codeHash)

theorem Whole.setCode (whole : Whole db obj) {code : Option Bytes} {codeHash : Bytes}
    (backed : CodeBacked db code codeHash) : Whole db (obj.setCode codeHash code) where
  __ := whole
  loaded := backed.1
  code := backed.2.imp_right (Or.imp_right fun present => ⟨present, rfl⟩)

theorem Whole.changed {a : Address} {entry : JournalEntry} (whole : Whole db obj)
    (changed : Change False a obj entry obj') : Whole db obj' := by
  cases changed with
  | suicide allowed => exact absurd allowed id
  | balance | nonce | storage => exact { whole with }
  | code code =>
    apply whole.setCode
    cases code with
    | none => exact ⟨nofun, .inl rfl⟩
    | some code => exact ⟨fun c same => (Option.some.inj same).symm, .inr (.inr rfl)⟩
  | touch => exact whole

def Sane (db : Database) (trie : Accounts) : JournalEntry → Prop
  | .createObjectChange a => trie[a]? = none
  | .resetObjectChange _ prev => Whole db prev
  | .suicideChange _ _ _ => False
  | .codeChange _ prevcode prevhash => CodeBacked db prevcode prevhash
  | _ => True

theorem Sane.restorable {trie : Accounts} {entry : JournalEntry} (sane : Sane db trie entry) :
    Restorable trie entry := by
  cases entry with
  | createObjectChange a => exact sane
  | resetObjectChange a prev => exact sane.deleted
  | _ => trivial

theorem Whole.adjusted {trie : Accounts} {entry : JournalEntry} {a : Address}
    {set : StateObject → StateObject} (whole : Whole db obj) (sane : Sane db trie entry)
    (about : adjustment entry = some (a, set)) : Whole db (set obj) := by
  cases entry with
  | suicideChange b prev balance => exact absurd sane id
  | balanceChange | nonceChange | storageChange =>
    cases about
    exact { whole with }
  | codeChange b prevcode prevhash =>
    cases about
    exact whole.setCode sane
  | _ => cases about

/-- An object that is flushed to its trie: it shows what it showed, and so does the
account that is written for it. -/
theorem Whole.flushed (whole : Whole db obj) (coherent : Coherent obj) (grows : Grows db db')
    (nonce : obj'.data.nonce = obj.data.nonce) (balance : obj'.data.balance = obj.data.balance)
    (codeHash : obj'.data.codeHash = obj.data.codeHash) (code : obj'.code = obj.code)
    (root : obj'.data.root = (obj.updateTrie db).2) (trie : obj'.trie = some (obj.updateTrie db).2)
    (cached : obj'.cachedStorage = obj.cachedStorage) (suicided : obj'.suicided = obj.suicided) :
    view db' obj' = view db obj ∧ content obj'.data = view db obj := by
  have answer : codeAnswer db' obj'.code obj'.data.codeHash =
      codeAnswer db obj.code obj.data.codeHash := by
    rw [code, codeHash, whole.codeAnswer_eq, (whole.grow grows).codeAnswer_eq]
  have storage : slot db' obj' = slot db obj := by
    funext key
    rw [slot, cached, base, trie, Option.getD_some, get_updateTrie coherent, slot]
    cases obj.cachedStorage[key]? <;> rfl
  have stored : obj'.data.root.get = slot db obj := by
    funext key
    rw [root, get_updateTrie coherent]
  constructor
  · exact View.ext nonce balance codeHash answer storage suicided
  · exact View.ext nonce balance codeHash (codeHash.trans whole.codeAnswer_eq.symm) stored
      whole.suicided.symm

end

/-! ## What the calls keep -/

def count (s : StateDB) (a : Address) : Nat := s.journal.dirties.getD a 0

structure Kept (s : StateDB) : Prop where
  whole : ∀ (a : Address) obj, s.stateObjects[a]? = some obj → Whole s.db obj
  sane : ∀ entry ∈ s.journal.entries, Sane s.db s.trie entry
  counted : ∀ a, dirtying s.journal.entries a ≤ count s a
  marked : ∀ a, 0 < count s a → s.stateObjects[a]? = none → s.trie[a]? = none
  dirty : ∀ a ∈ s.stateObjectsDirty, s.stateObjects[a]? = none → s.trie[a]? = none
  available : ∀ (a : Address) data, a ∉ s.stateObjectsDirty → s.trie[a]? = some data →
    Available s.db data
  /-- With all entries undone, the accounts are those of the trie. -/
  stored : ∃ o, Observed.undoAll s.db s.journal.entries (observed s) = some o ∧
    ∀ a, (a ∈ s.stateObjectsDirty → s.trie[a]? = none) →
      o.account a = (s.trie[a]?).map content

/-- A state with an empty journal. -/
theorem Kept.fresh {t : StateDB} (journal : t.journal = newJournal)
    (whole : ∀ (a : Address) obj, t.stateObjects[a]? = some obj → Whole t.db obj)
    (dirty : ∀ a ∈ t.stateObjectsDirty, t.stateObjects[a]? = none → t.trie[a]? = none)
    (available : ∀ (a : Address) data, a ∉ t.stateObjectsDirty → t.trie[a]? = some data →
      Available t.db data)
    (stored : ∀ a, (a ∈ t.stateObjectsDirty → t.trie[a]? = none) →
      (observed t).account a = (t.trie[a]?).map content) : Kept t where
  whole := whole
  sane := by simp [journal, newJournal]
  counted := by simp [journal, newJournal, dirtying]
  marked := by simp [count, journal, newJournal]
  dirty := dirty
  available := available
  stored := ⟨_, by rw [journal]; rfl, stored⟩

variable {new : List JournalEntry} {order : List Address}

section
variable {target : Option Address} {s t : StateDB} {a : Address} {obj : StateObject}

theorem Kept.gone (kept : Kept s) : Gone s := by
  intro a obj held deleted
  rw [(kept.whole a obj held).deleted] at deleted
  cases deleted

/-- An account that is not in memory is in the trie with all that it needs. -/
theorem Kept.available_of_absent (kept : Kept s) {data : Account}
    (absent : s.stateObjects[a]? = none) (stored : s.trie[a]? = some data) :
    Available s.db data := by
  refine kept.available a data ?_ stored
  intro dirty
  rw [kept.dirty a dirty absent] at stored
  cases stored

theorem Kept.lookup (kept : Kept s) (found : lookup s a = some obj) : Whole s.db obj := by
  obtain ⟨_, held | ⟨data, absent, stored, rfl⟩⟩ := lookup_eq_some s found
  · exact kept.whole a obj held
  · exact .newObject (kept.available_of_absent absent stored)

theorem absent_of_setStateObject {b : Address}
    (absent : (s.setStateObject a obj).stateObjects[b]? = none) : s.stateObjects[b]? = none := by
  by_cases same : a = b
  · subst same
    rw [held_setStateObject] at absent
    cases absent
  · rwa [held_setStateObject_of_ne s same] at absent

theorem Kept.stored_since (kept : Kept s) (since : Since new s t)
    (objects : t.stateObjectsDirty = s.stateObjectsDirty) :
    ∃ o, Observed.undoAll t.db t.journal.entries (observed t) = some o ∧
      ∀ a, (a ∈ t.stateObjectsDirty → t.trie[a]? = none) →
        o.account a = (t.trie[a]?).map content := by
  obtain ⟨o, undone, stored⟩ := kept.stored
  refine ⟨o, ?_, ?_⟩
  · rw [since.db, since.entries, Observed.undoAll_append, since.shown]
    exact undone
  · rw [objects, since.trie]
    exact stored

theorem Kept.hold (kept : Kept s) (whole : Whole s.db obj)
    (since : Since new s (s.setStateObject a obj)) : Kept (s.setStateObject a obj) where
  __ := kept
  whole := forall_setStateObject _ kept.whole whole
  marked := fun b positive absent => kept.marked b positive (absent_of_setStateObject absent)
  dirty := fun b member absent => kept.dirty b member (absent_of_setStateObject absent)
  stored := kept.stored_since since rfl

theorem count_append (entry : JournalEntry) (b : Address) :
    count (s.append entry) b = count s b + if entry.dirtied = some b then 1 else 0 := by
  rw [count, StateDB.append, Journal.append]
  cases entry.dirtied with
  | none => simp [count]
  | some c => simp only [getD_bump, Option.some.injEq, count]

theorem Kept.entry {entry : JournalEntry} (kept : Kept s) (about : subject entry = some a)
    (whole : Whole s.db obj) (sane : Sane s.db s.trie entry)
    (since : Since new s ((s.append entry).setStateObject a obj)) :
    Kept ((s.append entry).setStateObject a obj) where
  whole := forall_setStateObject _ kept.whole whole
  sane := List.forall_mem_cons.mpr ⟨sane, kept.sane⟩
  counted := by
    intro b
    change dirtying (entry :: s.journal.entries) b ≤ count (s.append entry) b
    rw [dirtying_cons, count_append]
    exact Nat.add_le_add_right (kept.counted b) _
  marked := by
    intro b positive absent
    change 0 < count (s.append entry) b at positive
    -- only the account of the entry is marked, and it is in memory
    have other : entry.dirtied ≠ some b := by
      intro dirtied
      cases about.symm.trans (subject_of_dirtied dirtied)
      rw [held_setStateObject] at absent
      cases absent
    rw [count_append, if_neg other, Nat.add_zero] at positive
    exact kept.marked b positive (absent_of_setStateObject absent)
  dirty := by
    intro b member absent
    have before : (s.append entry).stateObjects[b]? = none := absent_of_setStateObject absent
    exact kept.dirty b member before
  available := kept.available
  stored := kept.stored_since since rfl

theorem Kept.note (entry : JournalEntry) (kept : Kept s) (about : subject entry = none)
    (sane : Sane s.db s.trie entry) (since : Since new s t)
    (objects : t.stateObjects = s.stateObjects) (dirty : t.stateObjectsDirty = s.stateObjectsDirty)
    (journal : t.journal = s.journal.append entry) : Kept t := by
  have clean : entry.dirtied = none := by
    cases entry <;> first | rfl | cases about
  have same : t.journal = ⟨entry :: s.journal.entries, s.journal.dirties⟩ := by
    rw [journal, Journal.append, clean]
  have counts (b : Address) : count t b = count s b := by
    rw [count, count, same]
  refine ⟨?_, ?_, ?_, ?_, ?_, ?_, kept.stored_since since dirty⟩
  · rw [objects, since.db]
    exact kept.whole
  · rw [same, since.db, since.trie]
    exact List.forall_mem_cons.mpr ⟨sane, kept.sane⟩
  · intro b
    rw [counts, same, dirtying_cons, clean]
    simpa using kept.counted b
  · intro b positive absent
    rw [counts] at positive
    rw [objects] at absent
    rw [since.trie]
    exact kept.marked b positive absent
  · rw [dirty, objects, since.trie]
    exact kept.dirty
  · rw [dirty, since.trie, since.db]
    exact kept.available

theorem kept_move (kept : Kept s) (move : Move False target s t) : Kept t := by
  obtain ⟨new, since⟩ := since_move kept.gone move
  cases move with
  | load absent stored =>
    exact kept.hold (.newObject (kept.available_of_absent absent stored)) since
  | refresh held live refreshed =>
    exact kept.hold ((kept.whole _ _ held).refreshed refreshed) since
  | create absent =>
    refine kept.entry rfl (.newObject ⟨.inl rfl, .inl rfl⟩) ?_ since
    exact kept.gone.absent absent
  | reset held live =>
    have fresh : Whole s.db (.newObject .fresh) := .newObject ⟨.inl rfl, .inl rfl⟩
    exact kept.entry rfl { fresh with } (kept.whole _ _ held) since
  | @change _ a obj obj' entry held live changed =>
    have whole := kept.whole _ _ held
    refine kept.entry ?_ (whole.changed changed) ?_ since
    · cases changed <;> rfl
    · cases changed with
      | suicide allowed => exact absurd allowed id
      | code code => exact ⟨whole.loaded, whole.code.imp_right (Or.imp_right And.left)⟩
      | _ => trivial
  | @mark _ obj held =>
    have counts (b : Address) : count { s with journal := s.journal.dirty ripemd } b =
        count s b + if ripemd = b then 1 else 0 := getD_bump _ _ _
    refine ⟨kept.whole, kept.sane, ?_, ?_, kept.dirty, kept.available, kept.stored_since since rfl⟩
    · intro b
      rw [counts]
      exact Nat.le_add_right_of_le (kept.counted b)
    · intro b positive absent
      have other : ripemd ≠ b := by
        rintro rfl
        rw [held] at absent
        cases absent
      rw [counts, if_neg other, Nat.add_zero] at positive
      exact kept.marked b positive absent
  | refund gas => exact kept.note (.refundChange s.refund) rfl trivial since rfl rfl rfl
  | log log => exact kept.note (.addLogChange s.thash) rfl trivial since rfl rfl rfl
  | @preimage _ hash absent preimage =>
    exact kept.note (.addPreimageChange hash) rfl trivial since rfl rfl rfl
  | prepare thash txIndex =>
    exact { kept with stored := kept.stored_since since rfl }

theorem kept_moves (kept : Kept s) (moves : Moves False target s t) : Kept t := by
  induction moves with
  | refl => exact kept
  | tail _ move ih => exact kept_move ih move

end

section
variable {s t u : StateDB} {entry : JournalEntry} {older : List JournalEntry}

structure Lifted (entry : JournalEntry) (s u : StateDB) : Prop where
  whole : ∀ (a : Address) obj, u.stateObjects[a]? = some obj → Whole s.db obj
  absent : ∀ a : Address, u.stateObjects[a]? = none →
    s.stateObjects[a]? = none ∨ s.trie[a]? = none
  dirty : ∀ a, a ∈ u.stateObjectsDirty → a ∈ s.stateObjectsDirty
  kept : ∀ a, a ∈ s.stateObjectsDirty → a ∈ u.stateObjectsDirty ∨ s.trie[a]? = none

theorem lifted_undo (kept : Kept s) (sane : Sane s.db s.trie entry)
    (undone : s.undo entry = some u) : Lifted entry s u := by
  obtain ⟨a, rfl, rfl⟩ | ⟨a, prev, rfl, rfl⟩ | ⟨a, set, obj, about, found, rfl⟩ |
    ⟨_, _, _, _, _, rfl⟩ := undo_cases undone
  · refine ⟨forall_erase s kept.whole, ?_, fun b => Finset.mem_of_mem_erase, ?_⟩
    · intro b absent
      rw [get_erase] at absent
      split at absent
      · next same => exact .inr (same ▸ sane)
      · exact .inl absent
    · intro b member
      by_cases same : b = a
      · subst same
        exact .inr sane
      · exact .inl (Finset.mem_erase.mpr ⟨same, member⟩)
  · exact ⟨forall_setStateObject _ kept.whole sane, fun b absent => .inl (absent_of_setStateObject absent),
      fun _ member => member, fun _ member => .inl member⟩
  · exact ⟨forall_setStateObject _ kept.whole ((kept.lookup found).adjusted sane about),
      fun b absent => .inl (absent_of_setStateObject absent), fun _ member => member,
      fun _ member => .inl member⟩
  · exact ⟨kept.whole, fun _ absent => .inl absent, fun _ member => member,
      fun _ member => .inl member⟩

theorem count_forget (journal : u.journal = s.journal) (a : Address) :
    count (u.forget entry older) a = count s a - if entry.dirtied = some a then 1 else 0 := by
  rw [count, StateDB.forget]
  cases entry.dirtied with
  | none => simp [count, journal]
  | some b => simp only [getD_drop, journal, Option.some.injEq, count]

theorem kept_undoOne (kept : Kept s) (undone : s.undoOne = some t) : Kept t := by
  obtain ⟨entry, older, u, entries, step, rfl⟩ := undoOne_eq_some.mp undone
  have sane : Sane s.db s.trie entry := by
    apply kept.sane
    rw [entries]
    exact List.mem_cons_self
  have frame := undo_frame step
  have lifted := lifted_undo kept sane step
  obtain ⟨o, rewound, stored⟩ := kept.stored
  rw [entries] at rewound
  obtain ⟨o', newest, rest⟩ := Option.bind_eq_some_iff.mp rewound
  obtain ⟨u', step', shown⟩ := undo_simulates sane.restorable newest
  cases step.symm.trans step'
  have less (a : Address) (positive : 0 < count (u.forget entry older) a) : 0 < count s a := by
    rw [count_forget frame.journal] at positive
    omega
  refine ⟨?_, ?_, ?_, ?_, ?_, ?_, o, ?_, ?_⟩
  · intro a obj held
    have whole := lifted.whole a obj held
    rw [← frame.db] at whole
    exact whole
  · intro other member
    have kept := kept.sane other (by rw [entries]; exact List.mem_cons_of_mem _ member)
    rw [← frame.db, ← frame.trie] at kept
    exact kept
  · intro a
    have counted := kept.counted a
    rw [entries, dirtying_cons] at counted
    change dirtying older a ≤ _
    rw [count_forget frame.journal]
    omega
  · intro a positive absent
    change u.trie[a]? = none
    rw [frame.trie]
    rcases lifted.absent a absent with before | stored
    · exact kept.marked a (less a positive) before
    · exact stored
  · intro a member absent
    change u.trie[a]? = none
    rw [frame.trie]
    rcases lifted.absent a absent with before | stored
    · exact kept.dirty a (lifted.dirty a member) before
    · exact stored
  · intro a data clean present
    change u.trie[a]? = some data at present
    rw [frame.trie] at present
    change Available u.db data
    rw [frame.db]
    refine kept.available a data ?_ present
    intro dirty
    rcases lifted.kept a dirty with still | none
    · exact clean still
    · rw [none] at present
      cases present
  · have same : observed (u.forget entry older) = observed u :=
      observed_congr u rfl rfl rfl rfl rfl rfl rfl
    change Observed.undoAll u.db older _ = some o
    rw [same, shown, frame.db]
    exact rest
  · intro a condition
    change (a ∈ u.stateObjectsDirty → u.trie[a]? = none) at condition
    change o.account a = (u.trie[a]?).map content
    rw [frame.trie] at condition ⊢
    apply stored
    intro dirty
    rcases lifted.kept a dirty with still | none
    · exact condition still
    · exact none

theorem Kept.withRevisions (kept : Kept s) (revisions : Revisions) :
    Kept { s with revisions := revisions } := by
  obtain ⟨o, undone, stored⟩ := kept.stored
  refine { kept with stored := ⟨o, ?_, stored⟩ }
  rw [← undone]
  exact congrArg _ (observed_congr s rfl rfl rfl rfl rfl rfl rfl)

end

/-! ## Accounts without a mark -/

def EntryMarked (s : StateDB) : JournalEntry → Prop
  | .resetObjectChange a _ => 0 < count s a ∨ a ∈ s.stateObjectsDirty
  | _ => True

/-- Every account that a standing `CreateAccount` has reset is marked dirty. -/
def Marked (s : StateDB) : Prop := ∀ entry ∈ s.journal.entries, EntryMarked s entry

instance (s : StateDB) : DecidablePred (EntryMarked s)
  | .resetObjectChange a _ =>
    inferInstanceAs (Decidable (0 < count s a ∨ a ∈ s.stateObjectsDirty))
  | .createObjectChange _ | .suicideChange _ _ _ | .balanceChange _ _ | .nonceChange _ _
  | .storageChange _ _ _ | .codeChange _ _ _ | .refundChange _ | .addLogChange _
  | .addPreimageChange _ | .touchChange _ => .isTrue trivial

instance (s : StateDB) : Decidable (Marked s) :=
  inferInstanceAs (Decidable (∀ entry ∈ s.journal.entries, EntryMarked s entry))

section
variable {s : StateDB} {a : Address} {db : Database} {entries : List JournalEntry}
  {o o' : Observed}

/-- Entries about other accounts leave an account as it is. -/
theorem undoAll_account_of_apart (apart : ∀ entry ∈ entries, subject entry ≠ some a)
    (undone : Observed.undoAll db entries o = some o') : o'.account a = o.account a := by
  induction entries generalizing o with
  | nil =>
    cases undone
    rfl
  | cons entry older ih =>
    obtain ⟨next, newest, rest⟩ := Option.bind_eq_some_iff.mp undone
    rw [ih (fun other member => apart other (List.mem_cons_of_mem _ member)) rest]
    have other := apart entry List.mem_cons_self
    obtain ⟨b, rfl, rfl⟩ | ⟨b, v, about, rfl⟩ | same := undo_account_cases newest
    · exact Function.update_of_ne (fun same => other (congrArg some same.symm)) _ _
    · exact Function.update_of_ne (fun same => other (about.trans (congrArg some same.symm))) _ _
    · rw [same]

/-- Undoing an entry makes an account vanish only where the entry has created it. -/
theorem created_of_undo {entry : JournalEntry} (undone : Observed.undo db entry o = some o')
    (there : o.account a ≠ none) (vanished : o'.account a = none) :
    entry = .createObjectChange a := by
  obtain ⟨b, rfl, rfl⟩ | ⟨b, v, _, rfl⟩ | same := undo_account_cases undone
  · rw [Observed.account_setAccount] at vanished
    split at vanished
    · rename_i same
      rw [same]
    · exact absurd vanished there
  · rw [Observed.account_setAccount] at vanished
    split at vanished
    · cases vanished
    · exact absurd vanished there
  · rw [same] at vanished
    exact absurd vanished there

theorem created_of_undoAll (undone : Observed.undoAll db entries o = some o')
    (there : o.account a ≠ none) (vanished : o'.account a = none) :
    .createObjectChange a ∈ entries := by
  induction entries generalizing o with
  | nil =>
    cases undone
    exact absurd vanished there
  | cons entry older ih =>
    obtain ⟨next, newest, rest⟩ := Option.bind_eq_some_iff.mp undone
    by_cases still : next.account a = none
    · rw [created_of_undo newest there still]
      exact List.mem_cons_self
    · exact List.mem_cons_of_mem _ (ih rest still)

/-- An account without a mark is shown as it stands in the trie. -/
theorem shown_stored (kept : Kept s) (marked : Marked s) (clean : count s a = 0)
    (condition : a ∈ s.stateObjectsDirty → s.trie[a]? = none) :
    (observed s).account a = (s.trie[a]?).map content := by
  obtain ⟨o, undone, stored⟩ := kept.stored
  have base := stored a condition
  have undirtied : ∀ entry ∈ s.journal.entries, entry.dirtied ≠ some a := by
    intro entry member dirtied
    have marked : 0 < dirtying _ a := List.countP_pos_iff.mpr ⟨entry, member, by simp [dirtied]⟩
    have positive := Nat.lt_of_lt_of_le marked (kept.counted a)
    omega
  cases present : s.trie[a]? with
  | none =>
    -- what the entries have created is marked
    rw [present] at base
    by_contra there
    exact undirtied _ (created_of_undoAll undone there base) rfl
  | some data =>
    have outside : a ∉ s.stateObjectsDirty := by
      intro dirty
      rw [condition dirty] at present
      cases present
    rw [← present, ← base]
    refine (undoAll_account_of_apart ?_ undone).symm
    intro entry member about
    cases entry with
    | resetObjectChange b prev =>
      cases about
      rcases marked _ member with positive | dirty
      · omega
      · exact outside dirty
    | _ => exact undirtied _ member about

end

/-! ## `Finalise` -/

/-- An account with an object that `Finalise` has written. -/
structure Written (t : StateDB) (a : Address) : Prop where
  dirty : a ∈ t.stateObjectsDirty
  held : t.stateObjects[a]? ≠ none
  stored : t.trie[a]? ≠ none

structure Untouched (s t : StateDB) (a : Address) : Prop where
  held : t.stateObjects[a]? = s.stateObjects[a]?
  trie : t.trie[a]? = s.trie[a]?
  dirty : a ∈ t.stateObjectsDirty ↔ a ∈ s.stateObjectsDirty

theorem Untouched.trans {r s t : StateDB} {a : Address} (first : Untouched r s a)
    (second : Untouched s t a) : Untouched r t a :=
  ⟨second.held.trans first.held, second.trie.trans first.trie, second.dirty.trans first.dirty⟩

theorem Written.untouched {s t : StateDB} {a : Address} (written : Written s a)
    (untouched : Untouched s t a) : Written t a :=
  ⟨untouched.dirty.mpr written.dirty, untouched.held.symm ▸ written.held,
    untouched.trie.symm ▸ written.stored⟩

section
variable {s t : StateDB} {a : Address}

theorem Whole.updateRoot {obj : StateObject} (whole : Whole db obj) :
    Whole db (obj.updateRoot db) := by
  obtain ⟨err, updated, missing⟩ := updateRoot_eq db obj
  rw [updated]
  exact ⟨nofun, whole.loaded, whole.code, whole.opens missing, whole.suicided, whole.deleted⟩

/-- An object is written if it is there, and the other accounts are left alone. -/
theorem finaliseOne_spec
    (whole : ∀ (b : Address) obj, s.stateObjects[b]? = some obj → Whole s.db obj)
    (done : s.finaliseOne false a = some t) :
    t.db = s.db ∧ (∀ (b : Address) obj, t.stateObjects[b]? = some obj → Whole t.db obj) ∧
      ∀ b, Written t b ∨ (Untouched s t b ∧ (a ≠ b ∨ s.stateObjects[b]? = none)) := by
  rw [StateDB.finaliseOne] at done
  cases held : s.stateObjects[a]? with
  | none =>
    rw [held] at done
    cases done
    refine ⟨rfl, whole, fun b => .inr ⟨⟨rfl, rfl, .rfl⟩, ?_⟩⟩
    rcases ne_or_eq a b with other | rfl
    · exact .inl other
    · exact .inr held
  | some obj =>
    rw [held] at done
    have alive := whole a obj held
    obtain ⟨u, ended, rfl⟩ := Option.map_eq_some_iff.mp done
    rw [if_neg (by simp [alive.suicided])] at ended
    rw [updateStateObject_eq_some ended]
    refine ⟨rfl, forall_setStateObject s whole alive.updateRoot, fun b => ?_⟩
    by_cases same : a = b
    · subst same
      exact .inl ⟨Finset.mem_insert_self _ _, by simp [StateDB.setStateObject], by simp⟩
    · refine .inr ⟨⟨held_setStateObject_of_ne s same _, ?_, ?_⟩, .inl same⟩
      · exact (get_insert ..).trans (if_neg same)
      · exact Finset.mem_insert.trans (or_iff_right (Ne.symm same))

theorem finaliseAll_spec
    (whole : ∀ (b : Address) obj, s.stateObjects[b]? = some obj → Whole s.db obj)
    (done : order.foldlM (StateDB.finaliseOne false) s = some t) :
    t.db = s.db ∧ (∀ (b : Address) obj, t.stateObjects[b]? = some obj → Whole t.db obj) ∧
      ∀ b, Written t b ∨ (Untouched s t b ∧ (b ∉ order ∨ s.stateObjects[b]? = none)) := by
  induction order generalizing s with
  | nil =>
    cases done
    exact ⟨rfl, whole, fun b => .inr ⟨⟨rfl, rfl, .rfl⟩, .inl List.not_mem_nil⟩⟩
  | cons a rest ih =>
    obtain ⟨u, first, remaining⟩ := Option.bind_eq_some_iff.mp done
    obtain ⟨db, wholeNext, one⟩ := finaliseOne_spec whole first
    obtain ⟨db', wholeLast, others⟩ := ih wholeNext remaining
    refine ⟨db'.trans db, wholeLast, fun b => ?_⟩
    obtain written | ⟨later, left⟩ := others b
    · exact .inl written
    · obtain written | ⟨untouched, apart⟩ := one b
      · exact .inl (written.untouched later)
      · rw [untouched.held] at left
        refine .inr ⟨untouched.trans later, ?_⟩
        rw [List.mem_cons, not_or, and_or_right]
        exact ⟨apart.imp_left Ne.symm, left⟩

theorem kept_finalise (tidy : Tidy s) (kept : Kept s) (marked : Marked s)
    (done : s.finalise false = some t) : Kept t := by
  obtain ⟨u, folded, rfl⟩ := Option.map_eq_some_iff.mp done
  obtain ⟨db, whole, accounts⟩ := finaliseAll_spec kept.whole folded
  -- an account is written, or it is left alone and has no mark or no object
  have split (a : Address) : Written u a ∨
      (Untouched s u a ∧ (count s a = 0 ∨ s.stateObjects[a]? = none)) := by
    refine (accounts a).imp_right (And.imp_right (Or.imp_left fun outside => ?_))
    rw [tidy.positive.mem_keys_iff] at outside
    exact Nat.eq_zero_of_not_pos outside
  refine .fresh rfl whole ?_ ?_ ?_
  · intro a dirty absent
    change u.stateObjects[a]? = none at absent
    change u.trie[a]? = none
    obtain after | ⟨untouched, _⟩ := split a
    · exact absurd absent after.held
    · rw [untouched.held] at absent
      rw [untouched.trie]
      exact kept.dirty a (untouched.dirty.mp dirty) absent
  · intro a data clean present
    change u.trie[a]? = some data at present
    change Available u.db data
    obtain after | ⟨untouched, _⟩ := split a
    · exact absurd after.dirty clean
    · rw [untouched.trie] at present
      rw [db]
      exact kept.available a data (fun dirty => clean (untouched.dirty.mpr dirty)) present
  · intro a condition
    change (a ∈ u.stateObjectsDirty → u.trie[a]? = none) at condition
    change (observed _).account a = (u.trie[a]?).map content
    have same : (observed (StateDB.clearJournalAndRefund u)).account = (observed u).account :=
      account_congr u rfl rfl rfl
    rw [same]
    obtain after | ⟨untouched, reason⟩ := split a
    · exact absurd (condition after.dirty) after.stored
    · have shown : (observed u).account a = (observed s).account a := by
        rw [observed, observed]
        dsimp only
        rw [lookup_eq, lookup_eq, untouched.held, untouched.trie, db]
      rw [shown, untouched.trie]
      rw [untouched.dirty, untouched.trie] at condition
      by_cases positive : 0 < count s a
      · have absent := reason.resolve_left positive.ne'
        rw [kept.marked a positive absent, observed]
        dsimp only
        rw [lookup_eq, absent, kept.marked a positive absent]
        rfl
      · exact shown_stored kept marked (Nat.eq_zero_of_not_pos positive) condition

end

/-! ## `Commit` -/

/-- The state in the loop of `Commit`, which started in `s`: it shows what `s` showed,
and what is no longer dirty is in the trie and in the database. -/
structure Flushing (s t : StateDB) : Prop where
  db : Grows s.db t.db
  coherent : AllCoherent t
  whole : ∀ (a : Address) obj, t.stateObjects[a]? = some obj → Whole t.db obj
  held : ∀ a : Address, t.stateObjects[a]? = none ↔ s.stateObjects[a]? = none
  shown : ∀ (a : Address) obj, t.stateObjects[a]? = some obj →
    (observed s).account a = some (view t.db obj)
  dirty : ∀ a ∈ t.stateObjectsDirty, t.stateObjects[a]? = none → t.trie[a]? = none
  available : ∀ (a : Address) data, a ∉ t.stateObjectsDirty → t.trie[a]? = some data →
    Available t.db data
  stored : ∀ a, a ∉ t.stateObjectsDirty → (observed s).account a = (t.trie[a]?).map content
  trie : ∀ a : Address, s.stateObjects[a]? = none → t.trie[a]? = s.trie[a]?

section
variable {r s t : StateDB} {a : Address} {obj : StateObject}

theorem writeCode_spec (whole : Whole s.db obj) :
    ∃ codes dirtyCode, s.writeCode obj =
        ({ s with db := { s.db with codes := codes } }, { obj with dirtyCode := dirtyCode }) ∧
      (∀ code ∈ s.db.codes, code ∈ codes) ∧
      (obj.data.codeHash = [] ∨ obj.data.codeHash ∈ codes) := by
  obtain ⟨same, clean⟩ | ⟨code, loaded, written⟩ : (s.writeCode obj = (s, obj) ∧
      ¬ (obj.code = some obj.data.codeHash ∧ obj.dirtyCode = true)) ∨
      ∃ code, obj.code = some code ∧ s.writeCode obj =
        ({ s with db := { s.db with codes := code :: s.db.codes } },
          { obj with dirtyCode := false }) := by
    rw [StateDB.writeCode]
    cases obj.code with
    | none => exact .inl ⟨rfl, by simp⟩
    | some code =>
      dsimp only
      split
      · exact .inr ⟨code, rfl, rfl⟩
      · exact .inl ⟨rfl, by simp [*]⟩
  · exact ⟨s.db.codes, obj.dirtyCode, same, fun _ member => member,
      whole.code.imp_right (Or.resolve_right · clean)⟩
  · refine ⟨code :: s.db.codes, false, written, fun _ => List.mem_cons_of_mem _, .inr ?_⟩
    rw [whole.loaded code loaded]
    exact List.mem_cons_self

theorem updateTrie_code (db : Database) (obj : StateObject) (codes : List Bytes)
    (dirtyCode : Bool) :
    ({ obj with dirtyCode := dirtyCode } : StateObject).updateTrie { db with codes := codes } =
      ({ (obj.updateTrie db).1 with dirtyCode := dirtyCode }, (obj.updateTrie db).2) := by
  simp only [StateObject.updateTrie, StateObject.getTrie]
  cases obj.trie with
  | some tr => rfl
  | none =>
    have same : ({ db with codes := codes } : Database).openStorageTrie obj.data.root =
      db.openStorageTrie obj.data.root := rfl
    rw [same]
    cases db.openStorageTrie obj.data.root <;> rfl

/-- An object that is flushed and written, with its code in the database. -/
theorem Flushing.write (flushing : Flushing s t) (held : t.stateObjects[a]? = some obj) {obj' : StateObject} (grows : Grows t.db db)
    (code : obj.data.codeHash = [] ∨ obj.data.codeHash ∈ db.codes)
    (stored : (obj.updateTrie t.db).2 ∈ db.storages)
    (same : obj' =
      { obj with
        data := { obj.data with root := (obj.updateTrie t.db).2 }
        dbErr := none
        trie := some (obj.updateTrie t.db).2
        dirtyStorage := ∅
        dirtyCode := obj'.dirtyCode }) :
    Flushing s
      { t.setStateObject a obj' with
        db := db
        trie := t.trie.insert a obj'.data
        stateObjectsDirty := t.stateObjectsDirty.erase a } := by
  have whole := flushing.whole a obj held
  have coherent := flushing.coherent a obj held
  have alive : Whole db obj' := by
    rw [same]
    exact ⟨nofun, whole.loaded, code.imp_right .inl, rfl, whole.suicided, whole.deleted⟩
  obtain ⟨shown, contents⟩ : view db obj' = view t.db obj ∧ content obj'.data = view t.db obj := by
    rw [same]
    refine whole.flushed coherent grows ?_ ?_ ?_ ?_ ?_ ?_ ?_ ?_
    all_goals rfl
  have available : Available db obj'.data := by
    rw [same]
    exact ⟨.inr stored, code⟩
  have before := flushing.shown a obj held
  have inserted (b : Address) : (t.trie.insert a obj'.data)[b]? =
      if a = b then some obj'.data else t.trie[b]? := by
    rw [get_insert]
  refine ⟨flushing.db.trans grows, ?_, ?_, ?_, ?_, ?_, ?_, ?_, ?_⟩
  · have flushed : Coherent obj' := by
      rw [same]
      exact coherent.flushed rfl rfl rfl
    have all : AllCoherent (t.setStateObject a obj') := flushing.coherent.setStateObject flushed
    exact all
  · exact forall_setStateObject _ (fun b other found => (flushing.whole b other found).grow grows) alive
  · intro b
    by_cases equal : a = b
    · subst equal
      rw [held_setStateObject, ← flushing.held a, held]
      simp
    · rw [held_setStateObject_of_ne t equal]
      exact flushing.held b
  · refine forall_setStateObject t (fun b other found => ?_) (by rw [before, shown])
    rw [flushing.shown b other found, (flushing.whole b other found).view_grow grows]
  · intro b dirty absent
    obtain ⟨other, member⟩ := Finset.mem_erase.mp dirty
    rw [inserted, if_neg other.symm]
    have none : t.stateObjects[b]? = none := absent_of_setStateObject absent
    exact flushing.dirty b member none
  · intro b data clean present
    rw [inserted] at present
    split at present
    · cases present
      exact available
    · rename_i other
      refine (flushing.available b data ?_ present).grow grows
      intro member
      exact clean (Finset.mem_erase.mpr ⟨Ne.symm other, member⟩)
  · intro b clean
    rw [inserted]
    split
    · rename_i equal
      subst equal
      rw [before, ← contents]
      rfl
    · rename_i other
      apply flushing.stored
      intro member
      exact clean (Finset.mem_erase.mpr ⟨Ne.symm other, member⟩)
  · intro b absent
    rw [inserted, if_neg, flushing.trie b absent]
    rintro rfl
    rw [← flushing.held a, held] at absent
    cases absent

/-- One object: it is written where it is dirty, and no error comes up. -/
theorem commitOne_spec {err : Option DbError} (flushing : Flushing s r)
    (done : r.commitOne false a = some (t, err)) :
    err = none ∧ Flushing s t ∧ (∀ b ∈ t.stateObjectsDirty, b ∈ r.stateObjectsDirty) ∧
      (r.stateObjects[a]? ≠ none → a ∉ t.stateObjectsDirty) := by
  rw [StateDB.commitOne] at done
  cases held : r.stateObjects[a]? with
  | none =>
    rw [held] at done
    cases done
    exact ⟨rfl, flushing, fun _ member => member, fun some => absurd rfl some⟩
  | some obj =>
    rw [held] at done
    have whole := flushing.whole a obj held
    dsimp only at done
    rw [if_neg (by simp [whole.suicided])] at done
    split at done
    · obtain ⟨codes, dirtyCode, coded, kept, code⟩ := writeCode_spec whole
      rw [coded] at done
      obtain ⟨⟨u, failed⟩, written, same⟩ := Option.map_eq_some_iff.mp done
      obtain ⟨failure, updated, missing⟩ := updateTrie_fst r.db obj
      rw [StateDB.writeObject] at written
      rw [updateTrie_code, updated, whole.opens missing] at written
      obtain ⟨v, inserted, pair⟩ := Option.map_eq_some_iff.mp written
      cases pair
      cases same
      rw [updateStateObject_eq_some inserted]
      refine ⟨rfl, ?_, fun b => Finset.mem_of_mem_erase, fun _ => Finset.notMem_erase _ _⟩
      exact flushing.write held
        ⟨fun root member => List.mem_cons_of_mem _ member, kept⟩ code List.mem_cons_self rfl
    · rename_i clean
      cases done
      refine ⟨rfl, ?_, fun b => Finset.mem_of_mem_erase, fun _ => Finset.notMem_erase _ _⟩
      rw [Finset.erase_eq_of_notMem clean]
      exact flushing

/-- All objects: none of them is dirty afterwards. -/
theorem commitAll_spec {err : Option DbError} (flushing : Flushing s r)
    (done : StateDB.commitAll false order r = some (t, err)) :
    err = none ∧ Flushing s t ∧ (∀ b ∈ t.stateObjectsDirty, b ∈ r.stateObjectsDirty) ∧
      ∀ a ∈ order, s.stateObjects[a]? ≠ none → a ∉ t.stateObjectsDirty := by
  induction order generalizing r with
  | nil =>
    cases done
    exact ⟨rfl, flushing, fun _ member => member, fun a member => by cases member⟩
  | cons a rest ih =>
    rw [StateDB.commitAll] at done
    cases first : r.commitOne false a with
    | none =>
      rw [first] at done
      cases done
    | some result =>
      obtain ⟨u, failed⟩ := result
      rw [first] at done
      obtain ⟨rfl, next, fewer, cleaned⟩ := commitOne_spec flushing first
      obtain ⟨noError, last, fewer', cleaned'⟩ := ih next done
      refine ⟨noError, last, fun b member => fewer b (fewer' b member), ?_⟩
      intro b member present
      rcases List.mem_cons.mp member with rfl | inRest
      · intro dirty
        refine cleaned ?_ (fewer' b dirty)
        rw [Ne, flushing.held]
        exact present
      · exact cleaned' b inRest present

/-- The loop starts with the marks of the journal among the dirty objects. -/
theorem flushing_markDirty (tidy : Tidy s) (kept : Kept s) (marked : Marked s) :
    Flushing s s.markDirty := by
  have member (a : Address) : a ∈ s.markDirty.stateObjectsDirty ↔
      a ∈ s.stateObjectsDirty ∨ 0 < count s a := by
    rw [StateDB.markDirty]
    rw [Finset.mem_union, List.mem_toFinset, tidy.positive.mem_keys_iff]
    rfl
  refine ⟨.refl _, tidy.coherent, kept.whole, fun _ => .rfl, ?_, ?_, ?_, ?_, fun _ _ => rfl⟩
  · intro a obj held
    exact account_of_held s held (kept.whole a obj held).deleted
  · intro a dirty absent
    rcases (member a).mp dirty with old | positive
    · exact kept.dirty a old absent
    · exact kept.marked a positive absent
  · intro a data clean present
    exact kept.available a data (fun old => clean ((member a).mpr (.inl old))) present
  · intro a clean
    rw [member, not_or] at clean
    exact shown_stored kept marked (Nat.eq_zero_of_not_pos clean.2) fun dirty =>
      absurd dirty clean.1

/-- After `Commit` every account is in the trie and in the database as it was shown. -/
theorem commit_spec {outcome : Except DbError Accounts} (tidy : Tidy s) (kept : Kept s)
    (marked : Marked s) (visits : order.Perm s.stateObjects.keys)
    (done : s.commit false order = some (t, outcome)) :
    ∃ u, Flushing s u ∧ (∀ a, s.stateObjects[a]? ≠ none → a ∉ u.stateObjectsDirty) ∧
      outcome = .ok u.trie ∧
      t = StateDB.clearJournalAndRefund
        { u with db := { u.db with tries := u.trie :: u.db.tries } } := by
  have started := flushing_markDirty tidy kept marked
  rw [StateDB.commit] at done
  cases committed : StateDB.commitAll false order s.markDirty with
  | none =>
    rw [committed] at done
    cases done
  | some result =>
    obtain ⟨u, err⟩ := result
    obtain ⟨rfl, flushed, _, cleaned⟩ := commitAll_spec started committed
    rw [committed] at done
    cases done
    refine ⟨u, flushed, ?_, rfl, rfl⟩
    intro a present
    refine cleaned a ?_ present
    rw [visits.mem_iff, ExtTreeMap.mem_keys, ExtTreeMap.mem_iff_isSome_getElem?,
      Option.isSome_iff_ne_none]
    exact present

theorem Flushing.contents (flushing : Flushing s t)
    (clean : ∀ a, s.stateObjects[a]? ≠ none → a ∉ t.stateObjectsDirty) (a : Address) :
    (observed s).account a = (t.trie[a]?).map content ∧
      ∀ data, t.trie[a]? = some data → Available t.db data := by
  by_cases dirty : a ∈ t.stateObjectsDirty
  · have absent : s.stateObjects[a]? = none := by
      by_contra present
      exact clean a present dirty
    have none := flushing.dirty a dirty ((flushing.held a).mpr absent)
    rw [none, observed]
    dsimp only
    rw [lookup_eq, absent, ← flushing.trie a absent, none]
    refine ⟨rfl, fun _ impossible => ?_⟩
    cases impossible
  · exact ⟨flushing.stored a dirty, fun data => flushing.available a data dirty⟩

end

/-! ## Whole runs -/

theorem kept_commit {s t : StateDB} {outcome : Except DbError Accounts} (tidy : Tidy s)
    (kept : Kept s) (marked : Marked s) (visits : order.Perm s.stateObjects.keys)
    (done : s.commit false order = some (t, outcome)) : Kept t := by
  obtain ⟨u, flushing, clean, _, rfl⟩ := commit_spec tidy kept marked visits done
  have grows : Grows u.db { u.db with tries := u.trie :: u.db.tries } :=
    ⟨fun _ member => member, fun _ member => member⟩
  refine .fresh rfl ?_ flushing.dirty ?_ ?_
  · intro a obj held
    exact (flushing.whole a obj held).grow grows
  · intro a data _ present
    exact ((flushing.contents clean a).2 data present).grow grows
  · intro a _
    change _ = (u.trie[a]?).map content
    rw [← (flushing.contents clean a).1]
    -- an object in memory shows what it showed, and the others are read from the trie
    cases held : u.stateObjects[a]? with
    | some obj =>
      rw [flushing.shown a obj held, ← (flushing.whole a obj held).view_grow grows]
      exact account_of_held _ held (flushing.whole a obj held).deleted
    | none =>
      obtain ⟨contents, available⟩ := flushing.contents clean a
      rw [contents]
      change Option.map _ (lookup _ a) = _
      rw [lookup_eq]
      dsimp only [StateDB.clearJournalAndRefund]
      rw [held]
      cases present : u.trie[a]? with
      | none => rfl
      | some data =>
        exact congrArg some (view_newObject ((available data present).grow grows))

/-- The calls in question: no account is destroyed, and empty accounts are kept. -/
def Keeping : Call → Prop
  | .suicide _ => False
  | .finalise deleteEmptyObjects => deleteEmptyObjects = false
  | .commit deleteEmptyObjects _ => deleteEmptyObjects = false
  | .copy => False
  | .reset _ => False
  | _ => True

/-- `Finalise` and `Commit` are called where every reset account is marked. -/
def ResetsMarked (s : StateDB) : Call → Prop
  | .finalise _ => Marked s
  | .commit _ _ => Marked s
  | _ => True

instance : DecidablePred Keeping
  | .finalise deleteEmptyObjects => inferInstanceAs (Decidable (deleteEmptyObjects = false))
  | .commit deleteEmptyObjects _ => inferInstanceAs (Decidable (deleteEmptyObjects = false))
  | .suicide _ | .copy | .reset _ => .isFalse id
  | .query _ | .createAccount _ | .addBalance _ _ | .subBalance _ _ | .setBalance _ _
  | .setNonce _ _ | .setCode _ _ | .setState _ _ _ | .addRefund _ | .addLog _
  | .addPreimage _ _ | .prepare _ _ | .snapshot | .revertToSnapshot _ => .isTrue trivial

instance (s : StateDB) : DecidablePred (ResetsMarked s)
  | .finalise _ | .commit _ _ => inferInstanceAs (Decidable (Marked s))
  | .suicide _ | .copy | .reset _ | .query _ | .createAccount _ | .addBalance _ _
  | .subBalance _ _ | .setBalance _ _ | .setNonce _ _ | .setCode _ _ | .setState _ _ _
  | .addRefund _ | .addLog _ | .addPreimage _ _ | .prepare _ _ | .snapshot
  | .revertToSnapshot _ => .isTrue trivial

/-- A state database from `New` over a database with the whole state, and any calls. -/
def wholeMachine : System StateDB Call where
  init := fun s => ∃ root db, StateDB.new root db = some s ∧
    ∀ (a : Address) data, root[a]? = some data → Available db data
  enabled := fun s c => (s.call c).isSome = true
  next := fun s c => (s.call c).getD s

section
variable {s t : StateDB}

theorem kept_opened {tr : Accounts}
    (complete : ∀ (a : Address) data, tr[a]? = some data → Available db data) :
    Kept (StateDB.opened db tr) := by
  refine .fresh rfl ?_ ?_ (fun a data _ => complete a data) ?_
  · intro a obj held
    simp [StateDB.opened] at held
  · intro a dirty
    simp [StateDB.opened] at dirty
  · intro a _
    change Option.map _ (lookup _ a) = (tr[a]?).map content
    rw [lookup_eq]
    simp only [StateDB.opened, ExtTreeMap.getElem?_empty]
    cases present : tr[a]? with
    | none => rfl
    | some data => exact congrArg some (view_newObject (complete a data present))

theorem kept_call {c : Call} (tidy : Tidy s) (kept : Kept s) (keeping : Keeping c)
    (marked : ResetsMarked s c) (done : s.call c = some t) : Kept t := by
  by_cases plain : Plain c
  · refine kept_moves kept (moves_of_call plain done ?_)
    rintro ⟨a, rfl⟩
    exact keeping
  · cases c with
    | snapshot =>
      cases done
      exact kept.withRevisions _
    | revertToSnapshot revid =>
      obtain ⟨rev, u, _, _, undone, rfl⟩ := revertToSnapshot_eq_some.mp done
      exact (undoMany_keeps Kept kept_undoOne kept undone).withRevisions _
    | finalise deleteEmptyObjects =>
      cases keeping
      exact kept_finalise tidy kept marked done
    | commit deleteEmptyObjects order =>
      cases keeping
      rw [StateDB.call] at done
      split at done
      · rename_i visits
        obtain ⟨⟨u, outcome⟩, committed, rfl⟩ := Option.map_eq_some_iff.mp done
        exact kept_commit tidy kept marked visits committed
      · cases done
    | copy | reset => cases keeping
    | _ => exact absurd trivial plain

theorem kept_of_reachable
    (reached : Reachable wholeMachine (fun s c => Keeping c ∧ ResetsMarked s c) s) :
    Tidy s ∧ Kept s := by
  refine reached.invariant (fun s => Tidy s ∧ Kept s) ?_ ?_
  · rintro s ⟨root, db, opened, complete⟩
    rw [StateDB.new, Database.openTrie] at opened
    split at opened
    · cases opened
      exact ⟨tidy_empty rfl rfl, kept_opened complete⟩
    · cases opened
  · rintro s c ⟨tidy, kept⟩ enabled ⟨keeping, marked⟩
    obtain ⟨t, done⟩ := Option.isSome_iff_exists.mp enabled
    change Tidy ((s.call c).getD s) ∧ Kept ((s.call c).getD s)
    rw [done]
    exact ⟨tidy_call tidy done, kept_call tidy kept keeping marked done⟩

end

/-- The state that is opened at the committed root answers every question about an
account as the live state did before `Commit`. -/
theorem reopened_answers_alike {s t : StateDB}
    (reached : Reachable wholeMachine (fun s c => Keeping c ∧ ResetsMarked s c) s)
    (marked : Marked s) {order : List Address} (visits : order.Perm s.stateObjects.keys)
    {root : Accounts} (committed : s.commit false order = some (t, .ok root)) :
    ∃ fresh, StateDB.new root t.db = some fresh ∧
      ∀ q : Query, q.address ≠ none → (fresh.query q).2 = (s.query q).2 := by
  obtain ⟨tidy, kept⟩ := kept_of_reachable reached
  obtain ⟨u, flushing, clean, same, rfl⟩ := commit_spec tidy kept marked visits committed
  cases same
  have grows : Grows u.db { u.db with tries := u.trie :: u.db.tries } :=
    ⟨fun _ member => member, fun _ member => member⟩
  refine ⟨StateDB.opened { u.db with tries := u.trie :: u.db.tries } u.trie, ?_, ?_⟩
  · rw [StateDB.new, Database.openTrie, if_pos (.inr List.mem_cons_self)]
    rfl
  · have complete (a : Address) (data : Account) (present : u.trie[a]? = some data) :
        Available { u.db with tries := u.trie :: u.db.tries } data :=
      ((flushing.contents clean a).2 data present).grow grows
    obtain ⟨o, undone, stored⟩ := (kept_opened complete).stored
    cases undone
    have accounts (a : Address) :
        (observed (StateDB.opened { u.db with tries := u.trie :: u.db.tries } u.trie)).account a =
          (observed s).account a := by
      rw [(flushing.contents clean a).1]
      exact stored a fun dirty => by simp [StateDB.opened] at dirty
    intro q about
    rw [query_snd, query_snd]
    cases q with
    | refund | logs | preimages => exact absurd rfl about
    | _ => simp only [Observed.answer, accounts]

def resetCalls : List Call :=
  [.setState contract (bytesToHash [1]) (bytesToHash [2]), .createAccount contract,
    .setNonce contract 7, .finalise false, .setCode contract (some [1, 2]), .snapshot,
    .setBalance contract 0, .revertToSnapshot 0]

instance (s : StateDB) (c : Call) : Decidable (wholeMachine.enabled s c) :=
  inferInstanceAs (Decidable ((s.call c).isSome = true))

theorem reopened_answers_alike_contract :
    ∃ t root fresh,
      (resetCalls.foldl wholeMachine.next (StateDB.opened contractDb contractTrie)).commit false
        [contract] = some (t, .ok root) ∧
      StateDB.new root t.db = some fresh ∧
      (fresh.query (.nonce contract)).2 = 7 ∧ (fresh.query (.code contract)).2 = [1, 2] ∧
      (fresh.query (.balance contract)).2 = 5 := by
  have initial : wholeMachine.init (StateDB.opened contractDb contractTrie) := by
    refine ⟨contractTrie, contractDb, ?_, ?_⟩
    · rw [StateDB.new, Database.openTrie, if_pos (.inr List.mem_cons_self)]
      rfl
    · intro a data present
      rw [contractTrie, ExtTreeMap.getElem?_insert] at present
      split at present
      · cases present
        exact ⟨.inl rfl, .inr List.mem_cons_self⟩
      · simp at present
  have started : Reachable wholeMachine (fun s c => Keeping c ∧ ResetsMarked s c)
      (StateDB.opened contractDb contractTrie) := .init initial
  have reached := started.run resetCalls (by decide +kernel)
  generalize live : resetCalls.foldl wholeMachine.next (StateDB.opened contractDb contractTrie) = s
    at reached
  have marked : Marked s := by
    rw [← live]
    decide +kernel
  have visits : [contract].Perm s.stateObjects.keys := by
    rw [← live]
    decide +kernel
  have returns : (s.commit false [contract]).isSome = true := by
    rw [← live]
    decide +kernel
  obtain ⟨⟨t, outcome⟩, committed⟩ := Option.isSome_iff_exists.mp returns
  obtain ⟨tidy, kept⟩ := kept_of_reachable reached
  obtain ⟨u, _, _, rfl, _⟩ := commit_spec tidy kept marked visits committed
  obtain ⟨fresh, opened, answers⟩ := reopened_answers_alike reached marked visits committed
  refine ⟨t, u.trie, fresh, committed, opened, ?_, ?_, ?_⟩
  all_goals
    rw [answers _ (by simp [Query.address]), ← live]
    decide +kernel

/-- A contract that `CreateAccount` resets loses its nonce and its code.  The reset marks
nothing, so `Commit` leaves the old account in the trie, and it is back when the state
is opened again. -/
theorem reset_contract_returns :
    ∃ s t root fresh,
      (StateDB.new contractTrie contractDb).bind (fun s => s.call (.createAccount contract)) =
        some s ∧
      s.commit false [contract] = some (t, .ok root) ∧ StateDB.new root t.db = some fresh ∧
      (s.query (.nonce contract)).2 = 0 ∧ (fresh.query (.nonce contract)).2 = 1 ∧
      (s.query (.code contract)).2 = [] ∧ (fresh.query (.code contract)).2 = [96] := by
  have seen : (do
      let s ← (StateDB.new contractTrie contractDb).bind (fun s => s.call (.createAccount contract))
      let written ← s.commit false [contract]
      let root ← written.2.toOption
      let fresh ← StateDB.new root written.1.db
      pure ((s.query (.nonce contract)).2, (fresh.query (.nonce contract)).2,
        (s.query (.code contract)).2, (fresh.query (.code contract)).2)) =
        some (0, 1, [], [96]) := by
    decide +kernel
  obtain ⟨s, created, seen⟩ := Option.bind_eq_some_iff.mp seen
  obtain ⟨⟨t, outcome⟩, committed, seen⟩ := Option.bind_eq_some_iff.mp seen
  obtain ⟨root, returned, seen⟩ := Option.bind_eq_some_iff.mp seen
  obtain ⟨fresh, opened, seen⟩ := Option.bind_eq_some_iff.mp seen
  simp only [Option.pure_def, Option.some.injEq, Prod.mk.injEq] at seen
  obtain ⟨nonce, nonce', code, code'⟩ := seen
  cases outcome with
  | error err => cases returned
  | ok root' =>
    cases returned
    exact ⟨s, t, root, fresh, created, committed, opened, nonce, nonce', code, code'⟩

end Linkeye.Core.CommittedState
