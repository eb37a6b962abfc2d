import Mathlib.Data.List.GetD

/-!
# Bits in a list of bytes

Positions count the most significant bit of each byte first.
-/

set_option autoImplicit false

namespace Linkeye.Lib.ByteBits

/-- The mask of a position in its byte. -/
def mask (pos : Nat) : UInt8 := 0x80 >>> UInt8.ofNat (pos % 8)

def Clear (bytes : List UInt8) (pos : Nat) : Prop := bytes.getD (pos / 8) 0 &&& mask pos = 0

theorem or_and_eq_zero_iff {x y z : UInt8} : (x ||| y) &&& z = 0 ↔ x &&& z = 0 ∧ y &&& z = 0 := by
  have distrib : (x ||| y) &&& z = x &&& z ||| y &&& z :=
    UInt8.toNat_inj.mp (by simp only [UInt8.toNat_and, UInt8.toNat_or, Nat.and_or_distrib_right])
  rw [distrib, UInt8.or_eq_zero_iff]

theorem mask_and_mask {p q : Nat} : mask p &&& mask q = 0 ↔ p % 8 ≠ q % 8 := by
  have table : ∀ a b : Fin 8, (0x80 >>> UInt8.ofNat a.val : UInt8) &&& 0x80 >>> UInt8.ofNat b.val = 0 ↔
      a.val ≠ b.val := by decide
  exact table ⟨p % 8, by omega⟩ ⟨q % 8, by omega⟩

/-- A byte gets more bits. -/
theorem clear_modify {bytes : List UInt8} {i : Nat} (inside : i < bytes.length) (more : UInt8)
    (pos : Nat) : Clear (bytes.modify i fun byte => byte ||| more) pos ↔
      Clear bytes pos ∧ (i = pos / 8 → more &&& mask pos = 0) := by
  simp only [Clear, List.getD_eq_getElem?_getD, List.getElem?_modify]
  by_cases here : i = pos / 8
  · subst here
    rw [List.getElem?_eq_getElem inside]
    simp [or_and_eq_zero_iff]
  · simp [here]

end Linkeye.Lib.ByteBits
