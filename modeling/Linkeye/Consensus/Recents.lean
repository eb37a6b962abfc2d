import Linkeye.Poa.Headers

/-!
# The recently-signed rule

Both clique engines let a signer sign again after `len(Signers)/2 + 1` blocks.
`verifySeal` compares by unsigned subtraction alone, `Seal` asks first whether
the subtraction wraps around.
-/

set_option autoImplicit false

namespace Linkeye.Consensus.Recents

open Common.Types Lib.Maps
open Std (ExtTreeMap)
open Poa.Headers (sub64 signedRecently)
open Poa.Snapshots (Snapshot)

def refuses (recents : ExtTreeMap Nat Address) (limit number : Nat) (signer : Address) : Bool :=
  recents.toList.any fun (seen, recent) =>
    decide (recent = signer ∧ sub64 number limit < seen)

def waits (recents : ExtTreeMap Nat Address) (limit number : Nat) (signer : Address) : Bool :=
  recents.toList.any fun (seen, recent) =>
    decide (recent = signer ∧ (number < limit ∨ sub64 number limit < seen))

theorem signedRecently_eq (s : Snapshot) (number : Nat) (signer : Address) :
    signedRecently s number signer = refuses s.recents s.limit number signer := rfl

section
variable {recents : ExtTreeMap Nat Address} {limit number : Nat} {signer : Address}

theorem sub64_of_le (le : limit ≤ number) (small : number < 2 ^ 64) :
    sub64 number limit = number - limit := by
  rw [sub64, Nat.mod_eq_of_lt (lt_of_le_of_lt le small)]
  omega

theorem refuses_eq_false_iff :
    refuses recents limit number signer = false ↔
      ∀ seen : Nat, recents[seen]? = some signer → seen ≤ sub64 number limit := by
  rw [refuses, List.any_eq_false]
  constructor
  · intro passed seen held
    have listed := ExtTreeMap.mem_toList_iff_getElem?_eq_some.mpr held
    have kept := passed _ listed
    simp only [decide_eq_true_eq, true_and, not_lt] at kept
    exact kept
  · rintro bound ⟨seen, recent⟩ listed
    simp only [decide_eq_true_eq, not_and, not_lt]
    rintro rfl
    exact bound seen (ExtTreeMap.mem_toList_iff_getElem?_eq_some.mp listed)

theorem waits_eq_true_iff :
    waits recents limit number signer = true ↔
      ∃ seen : Nat, recents[seen]? = some signer ∧ (number < limit ∨ sub64 number limit < seen) := by
  rw [waits, List.any_eq_true]
  constructor
  · rintro ⟨⟨seen, recent⟩, listed, held⟩
    simp only [decide_eq_true_eq] at held
    obtain ⟨rfl, early⟩ := held
    exact ⟨seen, ExtTreeMap.mem_toList_iff_getElem?_eq_some.mp listed, early⟩
  · rintro ⟨seen, held, early⟩
    refine ⟨(seen, signer), ExtTreeMap.mem_toList_iff_getElem?_eq_some.mpr held, ?_⟩
    simp only [decide_eq_true_eq, true_and]
    exact early

/-- A signer that is let through would have had to wait only in the first blocks. -/
theorem waits_iff_of_not_refuses (passed : refuses recents limit number signer = false) :
    waits recents limit number signer = true ↔ number < limit ∧ signer ∈ recents.values := by
  rw [waits_eq_true_iff, mem_values_iff]
  constructor
  · rintro ⟨seen, held, early | late⟩
    · exact ⟨early, seen, held⟩
    · exact absurd (refuses_eq_false_iff.mp passed seen held) (not_le.mpr late)
  · rintro ⟨early, seen, held⟩
    exact ⟨seen, held, .inl early⟩

end

end Linkeye.Consensus.Recents
