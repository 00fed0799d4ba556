/-
  Youth.Lib.Memory

  Memory as bytes by their address, and the numbers that lie in it.

  `store` writes bytes from an address on and `load` reads them; a load sees the store at
  its address (`load_store_same`) and none that does not overlap it
  (`load_store_disjoint`).  An `Endian` is the byte order of a host: `image` are the bytes
  of a number in its memory and `value` is the number that such bytes are.
-/

import Mathlib.Data.List.GetD
import Youth.Lib.BigEndian

namespace Youth.Lib

/-- The byte at every address. -/
abbrev Memory : Type := Nat → UInt8

namespace Memory

def store (m : Memory) (address : Nat) (data : List UInt8) : Memory := fun i =>
  if address ≤ i then data.getD (i - address) (m i) else m i

def load (m : Memory) (address n : Nat) : List UInt8 :=
  (List.range n).map fun i => m (address + i)

@[simp] theorem length_load (m : Memory) (address n : Nat) : (m.load address n).length = n := by
  simp [load]

theorem store_at (m : Memory) (address : Nat) {data : List UInt8} {i : Nat} (hi : i < data.length) :
    m.store address data (address + i) = data[i] := by
  rw [store, if_pos (Nat.le_add_right _ _), Nat.add_sub_cancel_left, List.getD_eq_getElem _ _ hi]

theorem store_other (m : Memory) {address : Nat} {data : List UInt8} {i : Nat}
    (hi : i < address ∨ address + data.length ≤ i) : m.store address data i = m i := by
  rw [store]
  split
  next hle =>
    have hlen : data.length ≤ i - address := by omega
    rw [List.getD_eq_default _ _ hlen]
  next => rfl

theorem load_store_same (m : Memory) (address : Nat) (data : List UInt8) :
    (m.store address data).load address data.length = data := by
  apply List.ext_getElem (length_load _ _ _)
  intro i hi hdata
  simp only [load, List.getElem_map, List.getElem_range]
  exact store_at m address hdata

theorem load_store_disjoint (m : Memory) {address dest n : Nat} {data : List UInt8}
    (h : address + n ≤ dest ∨ dest + data.length ≤ address) :
    (m.store dest data).load address n = m.load address n := by
  apply List.map_congr_left
  intro i hi
  have hlt := List.mem_range.mp hi
  exact store_other m (by omega)

end Memory

/-- The byte order of a host. -/
inductive Endian
  | little
  | big
  deriving DecidableEq, Repr

namespace Endian

/-- The `w` bytes of an unsigned number in the memory of the host. -/
def image (e : Endian) (w n : Nat) : List UInt8 :=
  match e with
  | little => (beBytes w n).reverse
  | big => beBytes w n

/-- The unsigned number that bytes in the memory of the host are. -/
def value (e : Endian) (bs : List UInt8) : Nat :=
  match e with
  | little => beNat bs.reverse
  | big => beNat bs

@[simp] theorem length_image (e : Endian) (w n : Nat) : (e.image w n).length = w := by
  cases e <;> simp [image]

theorem image_value (e : Endian) {w : Nat} {bs : List UInt8} (h : bs.length = w) :
    e.image w (e.value bs) = bs := by
  subst h
  cases e with
  | little =>
      show (beBytes bs.length (beNat bs.reverse)).reverse = bs
      rw [← List.length_reverse, beBytes_beNat, List.reverse_reverse]
  | big => exact beBytes_beNat bs

theorem value_image (e : Endian) {w n : Nat} (h : n < 256 ^ w) : e.value (e.image w n) = n := by
  cases e with
  | little =>
      show beNat (beBytes w n).reverse.reverse = n
      rw [List.reverse_reverse, beNat_beBytes, Nat.mod_eq_of_lt h]
  | big =>
      show beNat (beBytes w n) = n
      rw [beNat_beBytes, Nat.mod_eq_of_lt h]

theorem value_lt (e : Endian) {w : Nat} {bs : List UInt8} (h : bs.length = w) :
    e.value bs < 256 ^ w := by
  subst h
  cases e with
  | little =>
      have hlt := beNat_lt bs.reverse
      rw [List.length_reverse] at hlt
      exact hlt
  | big => exact beNat_lt bs

end Endian
end Youth.Lib
