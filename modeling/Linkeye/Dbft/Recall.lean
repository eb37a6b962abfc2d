import Linkeye.Dbft.Headers

/-!
# A snapshot that was found is found again

`snapshot` puts what it returns into the caches.  Whatever the caches held
before, the next call with the same arguments returns the same snapshot.
-/

set_option autoImplicit false

namespace Linkeye.Dbft.Recall

open Common.Types Core.Blocks Headers

variable {after : Node} {snap : Snapshot}

section
variable {e : Engine} {node : Node} {number : Nat} {hash : Hash} {parents : List Header}

theorem pickHeader_hash {h : Header} {rest : List Header}
    (picked : pickHeader e node hash number parents = .ok (h, rest)) : h.hash e.crypto = hash := by
  cases parents with
  | nil =>
    rw [pickHeader] at picked
    cases found : getHeader e node hash number with
    | none => simp [found] at picked
    | some header =>
      rw [found] at picked
      cases picked
      rw [getHeader] at found
      have matched := List.find?_some found
      exact (of_decide_eq_true matched).1
  | cons parent others =>
    rw [pickHeader] at picked
    split at picked
    · rename_i same
      cases picked
      exact same.1
    · cases picked

/-- Where a snapshot comes from that no header had to be gathered for. -/
inductive FoundAtOnce (e : Engine) (node : Node) (number : Nat) (hash : Hash) (snap : Snapshot) :
    Node → Prop where
  | recent (held : node.recents[hash]? = some snap) : FoundAtOnce e node number hash snap node
  | stored (missing : node.recents[hash]? = none) (loaded : loadSnapshot e node hash = some snap) :
      FoundAtOnce e node number hash snap node
  | genesis {after : Node} (missing : node.recents[hash]? = none)
      (unloaded : loadSnapshot e node hash = none) (zero : number = 0)
      (made : genesisSnapshot e node = (after, .ok snap)) :
      FoundAtOnce e node number hash snap after

theorem genesisSnapshot_cases (e : Engine) (node : Node) :
    (∃ err, genesisSnapshot e node = (node, .error err)) ∨
      ∃ snap, snapshotOfHeader e node node.genesis 0 = .ok (some snap) ∧
        genesisSnapshot e node = (storeSnapshot node snap, .ok snap) := by
  rw [genesisSnapshot]
  split
  · exact .inl ⟨_, rfl⟩
  · split
    · exact .inl ⟨_, rfl⟩
    · exact .inl ⟨_, rfl⟩
    · rename_i snap built
      exact .inr ⟨snap, built, rfl⟩

/-- How the loop of `snapshot` ends, with the headers gathered on top of
`headers`. -/
inductive Gathers (e : Engine) (node : Node) : Nat → Hash → List Header → List Header →
    Node × Except EngineError (Snapshot × List Header) → Prop where
  | failed {number hash parents headers} (err : EngineError) :
      Gathers e node number hash parents headers (node, .error err)
  | atOnce {number hash parents headers after snap}
      (found : FoundAtOnce e node number hash snap after) :
      Gathers e node number hash parents headers (after, .ok (snap, headers))
  | built {below hash parents rest headers h snap}
      (picked : pickHeader e node hash (below + 1) parents = .ok (h, rest))
      (made : snapshotOfHeader e node h below = .ok (some snap)) :
      Gathers e node (below + 1) hash parents headers (node, .ok (snap, h :: headers))
  | further {below hash parents rest headers h result}
      (picked : pickHeader e node hash (below + 1) parents = .ok (h, rest))
      (later : Gathers e node below h.parentHash rest (h :: headers) result) :
      Gathers e node (below + 1) hash parents headers result

theorem gathers (e : Engine) (node : Node) (number : Nat) (hash : Hash)
    (parents headers : List Header) :
    Gathers e node number hash parents headers (gather e node number hash parents headers) := by
  induction number using Nat.strong_induction_on generalizing hash parents headers with
  | _ number ih =>
    rw [gather.eq_def]
    split
    · rename_i held
      exact .atOnce (.recent held)
    · rename_i missing
      split
      · rename_i loaded
        exact .atOnce (.stored missing loaded)
      · rename_i unloaded
        split
        · obtain ⟨err, failed⟩ | ⟨snap, _, made⟩ := genesisSnapshot_cases e node
          · rw [failed]
            exact .failed err
          · simp only [made]
            exact .atOnce (.genesis missing unloaded rfl made)
        · rename_i below
          split
          · exact .failed _
          · rename_i picked
            split
            · exact .failed _
            · rename_i made
              exact .built picked made
            · exact .further picked (ih below (Nat.lt_succ_self below) _ _ _)

/-- The headers gathered on top of `headers` end with that of the given hash. -/
theorem Gathers.headers {headers out : List Header}
    (ended : Gathers e node number hash parents headers (after, .ok (snap, out))) :
    out = headers ∨ ∃ front h, out = front ++ h :: headers ∧ h.hash e.crypto = hash := by
  generalize run : (after, Except.ok (snap, out)) = result at ended
  induction ended with
  | failed => cases run
  | atOnce =>
    cases run
    exact .inl rfl
  | built picked =>
    cases run
    exact .inr ⟨[], _, rfl, pickHeader_hash picked⟩
  | further picked _ ih =>
    have own := pickHeader_hash picked
    rcases ih run with same | ⟨front, other, same, _⟩
    · exact .inr ⟨[], _, same, own⟩
    · refine .inr ⟨front ++ [other], _, ?_, own⟩
      rw [same, List.append_assoc, List.singleton_append]

theorem Gathers.foundAtOnce (ended : Gathers e node number hash parents [] (after, .ok (snap, []))) :
    FoundAtOnce e node number hash snap after := by
  cases ended with
  | atOnce found => exact found
  | further _ later =>
    rcases later.headers with same | ⟨front, other, same, _⟩
    · cases same
    · simp at same

theorem gather_of_recent (held : node.recents[hash]? = some snap) :
    gather e node number hash parents [] = (node, .ok (snap, [])) := by
  rw [gather.eq_def, held]

theorem recents_addRecent_self (node : Node) (snap : Snapshot) :
    (addRecent node snap).recents[snap.hash]? = some snap := by
  rw [addRecent, Std.ExtTreeMap.getElem?_insert_self]

theorem recents_addRecent_of_ne (other : snap.hash ≠ hash) :
    (addRecent node snap).recents[hash]? = node.recents[hash]? := by
  rw [addRecent, Lib.Maps.get_insert, if_neg other]

theorem genesisSnapshot_again (made : genesisSnapshot e node = (after, .ok snap)) :
    after = storeSnapshot node snap ∧ ∀ other : Node, other.genesis = node.genesis →
      other.db = node.db → genesisSnapshot e other = (storeSnapshot other snap, .ok snap) := by
  rw [genesisSnapshot] at made
  split at made
  · cases made
  · rename_i passed
    split at made
    · cases made
    · cases made
    · rename_i built
      cases made
      refine ⟨rfl, fun other genesis db => ?_⟩
      have same : snapshotOfHeader e other node.genesis 0 =
          snapshotOfHeader e node node.genesis 0 := by
        rw [snapshotOfHeader, snapshotOfHeader, db]
      rw [genesisSnapshot, genesis, passed]
      simp only [same, built]

theorem FoundAtOnce.again (found : FoundAtOnce e node number hash snap after)
    (parents : List Header) :
    (gather e (addRecent after snap) number hash parents []).2 = .ok (snap, []) := by
  by_cases own : snap.hash = hash
  · subst own
    rw [gather_of_recent (recents_addRecent_self after snap)]
  · cases found with
    | recent held =>
      rw [← recents_addRecent_of_ne own] at held
      rw [gather_of_recent held]
    | stored missing loaded =>
      rw [← recents_addRecent_of_ne own] at missing
      have loaded' : loadSnapshot e (addRecent after snap) hash = some snap := loaded
      rw [gather.eq_def, missing]
      simp only [loaded']
    | genesis missing unloaded zero made =>
      obtain ⟨rfl, remade⟩ := genesisSnapshot_again made
      have missing' : (addRecent (storeSnapshot node snap) snap).recents[hash]? = none := by
        rw [recents_addRecent_of_ne own]
        exact missing
      have unloaded' : loadSnapshot e (addRecent (storeSnapshot node snap) snap) hash = none := by
        rw [← unloaded, loadSnapshot, loadSnapshot, addRecent, storeSnapshot]
        simp only
        rw [Lib.Maps.get_insert, if_neg own]
      subst zero
      rw [gather, missing']
      simp only [unloaded', remade (addRecent (storeSnapshot node snap) snap) rfl rfl]

theorem snapshot_of_gather (gathered : (gather e node number hash parents []).2 = .ok (snap, [])) :
    (snapshot e node number hash parents).2 = .ok snap := by
  rw [snapshot]
  generalize gather e node number hash parents [] = result at gathered
  obtain ⟨after, outcome⟩ := result
  cases gathered
  rfl

theorem apply_hash {after : Snapshot} {front : List Header} {h : Header}
    (applied : apply e snap (front ++ [h]) = .ok after) : after.hash = h.hash e.crypto := by
  rw [apply, List.getLast?_append, List.getLast?_singleton, Option.some_or] at applied
  dsimp only at applied
  split at applied
  · split at applied
    · cases applied
    · cases applied
      rfl
  · cases applied

theorem snapshot_again (found : snapshot e node number hash parents = (after, .ok snap)) :
    (snapshot e after number hash parents).2 = .ok snap := by
  rw [snapshot] at found
  split at found
  · cases found
  · rename_i middle start headers gathered
    have ended := gathers e node number hash parents []
    rw [gathered] at ended
    split at found
    · cases found
    · rename_i applied
      cases headers with
      | nil =>
        cases applied
        cases found
        exact snapshot_of_gather (ended.foundAtOnce.again parents)
      | cons first rest =>
        cases found
        apply snapshot_of_gather
        rcases ended.headers with empty | ⟨front, h, shape, own⟩
        · cases empty
        · rw [shape] at applied
          have held :
              (storeSnapshot (addRecent middle snap) snap).recents[hash]? = some snap := by
            rw [← own, ← apply_hash applied]
            exact recents_addRecent_self middle snap
          exact congrArg Prod.snd (gather_of_recent held)

end

end Linkeye.Dbft.Recall
