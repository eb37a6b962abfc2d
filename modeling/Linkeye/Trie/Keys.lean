import Linkeye.Common.Types

/-!
# Encodings of trie keys

The key, hex and compact encodings of `trie/encoding.go`.  A hex key is a list of
nibbles, with a byte 16 behind them where a value ends.
-/

set_option autoImplicit false

namespace Linkeye.Trie.Keys

open Common.Types

def hasTerm (s : Bytes) : Bool := s.getLast? == some 16

/-- The callers give it an even number of nibbles. -/
def decodeNibbles : Bytes → Bytes
  | high :: low :: rest => (high <<< 4 ||| low) :: decodeNibbles rest
  | _ => []

def withoutTerm (hex : Bytes) : Bytes := if hasTerm hex = true then hex.dropLast else hex

def hexToCompact (hex : Bytes) : Bytes :=
  let terminator : UInt8 := if hasTerm hex = true then 1 else 0
  match withoutTerm hex with
  | [] => [terminator <<< 5]
  | first :: rest =>
    if (first :: rest).length % 2 = 1 then
      (terminator <<< 5 ||| (1 : UInt8) <<< 4 ||| first) :: decodeNibbles rest
    else terminator <<< 5 :: decodeNibbles (first :: rest)

def nibbles (str : Bytes) : Bytes := str.flatMap fun b => [b / 16, b % 16]

def keybytesToHex (str : Bytes) : Bytes := nibbles str ++ [16]

/-- `none` is the panic on an empty key. -/
def compactToHex (compact : Bytes) : Option Bytes :=
  match (keybytesToHex compact).dropLast with
  | [] => none
  | flag :: rest =>
    let base := if 2 ≤ flag then flag :: rest ++ [16] else flag :: rest
    some (base.drop (2 - (flag &&& 1)).toNat)

/-- `none` is the panic on a key of odd length. -/
def hexToKeybytes (hex : Bytes) : Option Bytes :=
  if (withoutTerm hex).length % 2 = 0 then some (decodeNibbles (withoutTerm hex)) else none

/-! ## Nibbles -/

def digit (n : Fin 16) : UInt8 := UInt8.ofNat n.val

/-- The hex key of some nibbles, with or without the terminator. -/
def hexKey (path : List (Fin 16)) (term : Bool) : Bytes :=
  if term = true then path.map digit ++ [16] else path.map digit

theorem hasTerm_hexKey (path : List (Fin 16)) (term : Bool) :
    hasTerm (hexKey path term) = term ∧ withoutTerm (hexKey path term) = path.map digit := by
  have small : ∀ n : Fin 16, digit n ≠ 16 := by decide
  cases term with
  | true => simp [withoutTerm, hasTerm, hexKey]
  | false =>
    have plain : hasTerm (path.map digit) = false := by
      simp [hasTerm, List.getLast?_map, small]
    simp [withoutTerm, plain, hexKey]

theorem nibbles_decodeNibbles : (path : List (Fin 16)) → path.length % 2 = 0 →
    nibbles (decodeNibbles (path.map digit)) = path.map digit
  | [], _ => rfl
  | [_], odd => by simp at odd
  | high :: low :: rest, even => by
    have halves : ∀ a b : Fin 16, (digit a <<< 4 ||| digit b) / 16 = digit a ∧
        (digit a <<< 4 ||| digit b) % 16 = digit b := by decide
    have later := nibbles_decodeNibbles rest (by simp only [List.length_cons] at even; omega)
    simp only [nibbles] at later
    simp [decodeNibbles, nibbles, halves, later]

theorem decodeNibbles_nibbles (key : Bytes) : decodeNibbles (nibbles key) = key := by
  have whole : ∀ n : Fin 256, (UInt8.ofNat n.val / 16) <<< 4 ||| UInt8.ofNat n.val % 16 =
      UInt8.ofNat n.val := by decide +kernel
  induction key with
  | nil => rfl
  | cons b rest ih =>
    have byte := whole ⟨b.toNat, b.toNat_lt⟩
    rw [UInt8.ofNat_toNat] at byte
    simpa [nibbles, decodeNibbles, byte] using ih

/-! ## The encodings -/

theorem compactToHex_cons (b : UInt8) (rest : Bytes) :
    compactToHex (b :: rest) =
      some ((if 2 ≤ b / 16 then b / 16 :: b % 16 :: nibbles rest ++ [16]
        else b / 16 :: b % 16 :: nibbles rest).drop (2 - (b / 16 &&& 1)).toNat) := by
  rw [compactToHex, keybytesToHex, List.dropLast_concat]
  rfl

theorem compactToHex_hexToCompact (path : List (Fin 16)) (term : Bool) :
    compactToHex (hexToCompact (hexKey path term)) = some (hexKey path term) := by
  obtain ⟨ends, plain⟩ := hasTerm_hexKey path term
  rw [hexToCompact, ends, plain]
  cases path with
  | nil => cases term <;> rfl
  | cons first rest =>
    rw [List.map_cons]
    dsimp only
    split
    · rename_i odd
      have pairs := nibbles_decodeNibbles rest (by simp at odd; omega)
      have flags : ∀ (n : Fin 16) (term : Bool),
          ((if term = true then 1 else 0 : UInt8) <<< 5 ||| (1 : UInt8) <<< 4 ||| digit n) / 16 =
            (if term = true then 3 else 1) ∧
          ((if term = true then 1 else 0 : UInt8) <<< 5 ||| (1 : UInt8) <<< 4 ||| digit n) % 16 =
            digit n := by decide
      rw [compactToHex_cons, pairs, (flags first term).1, (flags first term).2]
      cases term <;> rfl
    · rename_i even
      have pairs := nibbles_decodeNibbles (first :: rest) (by simp at even ⊢; omega)
      rw [List.map_cons] at pairs
      rw [compactToHex_cons, pairs]
      cases term <;> rfl

/-- The encodings are inverse to each other. -/
theorem key_encodings_inverse :
    (∀ path term, compactToHex (hexToCompact (hexKey path term)) = some (hexKey path term)) ∧
      Set.InjOn hexToCompact {hex | ∃ path term, hexKey path term = hex} ∧
      (∀ key, hexToKeybytes (keybytesToHex key) = some key) ∧
      ∀ path term, (compactToHex (hexToCompact (hexKey path term))).map hexToCompact =
        some (hexToCompact (hexKey path term)) := by
  refine ⟨compactToHex_hexToCompact, ?_, fun key => ?_, fun path term => ?_⟩
  · rintro _ ⟨path, term, rfl⟩ _ ⟨path', term', rfl⟩ same
    have back := congrArg compactToHex same
    rw [compactToHex_hexToCompact, compactToHex_hexToCompact] at back
    exact Option.some.inj back
  · have plain : withoutTerm (keybytesToHex key) = nibbles key := by
      simp [withoutTerm, hasTerm, keybytesToHex]
    have even : (nibbles key).length % 2 = 0 := by simp [nibbles]
    rw [hexToKeybytes, plain, if_pos even, decodeNibbles_nibbles]
  · rw [compactToHex_hexToCompact]
    rfl

end Linkeye.Trie.Keys
