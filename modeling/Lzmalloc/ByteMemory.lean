import Mathlib.Data.Nat.Basic
import Mathlib.Tactic.Ring

/-!
# Byte-addressed memory with little-endian words

A memory is a total map from addresses to bytes. Words of any width are read
and written in little-endian order; the frame lemmas speak about the bytes a
word covers.
-/

namespace Lzmalloc.ByteMemory

set_option autoImplicit false

abbrev Memory := Nat → UInt8

def load (memory : Memory) : Nat → Nat → Nat
  | _, 0 => 0
  | address, width + 1 => (memory address).toNat + 256 * load memory (address + 1) width

def store (memory : Memory) (address width value : Nat) : Memory := fun byte =>
  if address ≤ byte ∧ byte < address + width then UInt8.ofNat (value / 256 ^ (byte - address))
  else memory byte

def fill (memory : Memory) (address length : Nat) (value : UInt8) : Memory := fun byte =>
  if address ≤ byte ∧ byte < address + length then value else memory byte

/-- `memcpy`: the source bytes are those of the memory before the copy. -/
def copy (memory : Memory) (target source length : Nat) : Memory := fun byte =>
  if target ≤ byte ∧ byte < target + length then memory (byte - target + source) else memory byte

theorem load_congr {memory other : Memory} {address width : Nat}
    (agree : ∀ byte, address ≤ byte → byte < address + width → other byte = memory byte) :
    load other address width = load memory address width := by
  induction width generalizing address with
  | zero => rfl
  | succ width ih =>
      rw [load, load, agree address (by omega) (by omega),
        ih fun byte lower upper => agree byte (by omega) (by omega)]

theorem load_store (memory : Memory) (address width value : Nat) :
    load (store memory address width value) address width = value % 256 ^ width := by
  induction width generalizing memory address value with
  | zero => simp [load, Nat.mod_one]
  | succ width ih =>
      have first : store memory address (width + 1) value address = UInt8.ofNat value := by
        simp [store]
      have rest : load (store memory address (width + 1) value) (address + 1) width =
          load (store memory (address + 1) width (value / 256)) (address + 1) width := by
        apply load_congr
        intro byte lower upper
        have offset : byte - address = byte - (address + 1) + 1 := by omega
        have inside : address ≤ byte ∧ byte < address + (width + 1) := by omega
        simp only [store, if_pos inside, if_pos (show address + 1 ≤ byte ∧ _ from ⟨lower, upper⟩)]
        rw [offset, pow_succ, Nat.mul_comm, Nat.div_div_eq_div_mul]
      have split : (256 : Nat) ^ (width + 1) = 256 * 256 ^ width := Nat.pow_succ'
      rw [load, first, rest, ih, UInt8.toNat_ofNat', split, Nat.mod_mul]

theorem store_outside (memory : Memory) {address width value byte : Nat}
    (outside : byte < address ∨ address + width ≤ byte) :
    store memory address width value byte = memory byte := by
  have absent : ¬(address ≤ byte ∧ byte < address + width) := by omega
  simp [store, absent]

theorem fill_outside (memory : Memory) {address length byte : Nat} {value : UInt8}
    (outside : byte < address ∨ address + length ≤ byte) :
    fill memory address length value byte = memory byte := by
  have absent : ¬(address ≤ byte ∧ byte < address + length) := by omega
  simp [fill, absent]

theorem copy_outside (memory : Memory) {target source length byte : Nat}
    (outside : byte < target ∨ target + length ≤ byte) :
    copy memory target source length byte = memory byte := by
  have absent : ¬(target ≤ byte ∧ byte < target + length) := by omega
  simp [copy, absent]

def bytesFrom (memory : Memory) (address length : Nat) : List UInt8 :=
  (List.range length).map fun index => memory (address + index)

@[simp] theorem bytes_from_length (memory : Memory) (address length : Nat) :
    (bytesFrom memory address length).length = length := by
  simp [bytesFrom]

theorem bytes_from_get (memory : Memory) {address length index : Nat} (inside : index < length) :
    (bytesFrom memory address length)[index]? = some (memory (address + index)) := by
  simp [bytesFrom, inside]

theorem bytes_from_congr {memory other : Memory} {address length : Nat}
    (agree : ∀ byte, address ≤ byte → byte < address + length → other byte = memory byte) :
    bytesFrom other address length = bytesFrom memory address length := by
  apply List.map_congr_left
  intro index member
  have inside := List.mem_range.mp member
  exact agree (address + index) (by omega) (by omega)

theorem bytes_from_update (memory : Memory) (address length : Nat) {offset : Nat}
    (value : UInt8) :
    bytesFrom (Function.update memory (address + offset) value) address length =
      (bytesFrom memory address length).set offset value := by
  apply List.ext_getElem
  · simp
  · intro index inside _
    rw [bytes_from_length] at inside
    by_cases same : index = offset
    · simp [bytesFrom, same]
    · have different : ¬offset = index := fun equal => same equal.symm
      simp [bytesFrom, Function.update_apply, same, different]

-- Loads from different memories are compared by `load_congr`, never byte by byte.
attribute [irreducible] load

end Lzmalloc.ByteMemory
