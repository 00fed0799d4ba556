/-
  Youth.Lib.BigEndian

  Fixed-width integers as big-endian byte lists.

  `beBytes w n` are the low `w` bytes of `n`, most significant first; `beNat`
  reads such a list back.  Signed values go through their residue modulo
  `256 ^ w` on the way out and through `Int.bmod` (the representative around
  zero) on the way in, which is two's complement.
-/

import Mathlib.Data.List.Induction
import Mathlib.Tactic.Ring

namespace Youth.Lib

/-- The low `w` bytes of `n`, most significant first. -/
def beBytes : Nat → Nat → List UInt8
  | 0, _ => []
  | w + 1, n => beBytes w (n / 256) ++ [UInt8.ofNat n]

/-- The number a big-endian byte list stands for. -/
def beNat (bs : List UInt8) : Nat := bs.foldl (fun acc b => 256 * acc + b.toNat) 0

/-- The `w` bytes of the two's-complement encoding of `x`. -/
def beBytesInt (w : Nat) (x : Int) : List UInt8 := beBytes w (x % (256 ^ w : Nat)).toNat

/-- The signed number that `w` two's-complement bytes stand for. -/
def beInt (w : Nat) (bs : List UInt8) : Int := Int.bmod (beNat bs) (256 ^ w)

@[simp] theorem length_beBytes (w n : Nat) : (beBytes w n).length = w := by
  induction w generalizing n with
  | zero => rfl
  | succ w ih => simp [beBytes, ih]

@[simp] theorem length_beBytesInt (w : Nat) (x : Int) : (beBytesInt w x).length = w :=
  length_beBytes w _

theorem beNat_concat (bs : List UInt8) (b : UInt8) :
    beNat (bs ++ [b]) = 256 * beNat bs + b.toNat := by
  simp [beNat]

/-- Reading the bytes of `n` back gives `n` modulo the width. -/
theorem beNat_beBytes (w n : Nat) : beNat (beBytes w n) = n % 256 ^ w := by
  induction w generalizing n with
  | zero => simp [beBytes, beNat, Nat.mod_one]
  | succ w ih =>
      have hbyte : (UInt8.ofNat n).toNat = n % 256 := by simp
      rw [beBytes, beNat_concat, ih, hbyte, Nat.pow_succ', Nat.mod_mul]
      omega

/-- A signed value in range survives the trip through its bytes. -/
theorem beInt_beBytesInt {w : Nat} {x : Int} (hlo : -(256 ^ w : Nat) ≤ 2 * x)
    (hhi : 2 * x < (256 ^ w : Nat)) : beInt w (beBytesInt w x) = x := by
  have hpos : 0 < (256 ^ w : Nat) := Nat.pow_pos (by decide)
  have hmod : ((x % (256 ^ w : Nat)).toNat : Int) = x % (256 ^ w : Nat) :=
    Int.toNat_of_nonneg (Int.emod_nonneg _ (by omega))
  have hval : beNat (beBytesInt w x) = (x % (256 ^ w : Nat)).toNat := by
    have hlt := Int.emod_lt_of_pos x (b := ((256 ^ w : Nat) : Int)) (by omega)
    rw [beBytesInt, beNat_beBytes, Nat.mod_eq_of_lt (by omega)]
  rw [beInt, hval, hmod, Int.emod_bmod]
  exact Int.bmod_eq_of_le_mul_two (by omega) (by omega)

theorem beNat_lt (bs : List UInt8) : beNat bs < 256 ^ bs.length := by
  induction bs using List.reverseRecOn with
  | nil => decide
  | append_singleton bs b ih =>
      have hbyte := b.toNat_lt
      rw [beNat_concat, List.length_append, List.length_singleton, Nat.pow_succ]
      omega

/-- The bytes of the number that some bytes stand for. -/
theorem beBytes_beNat (bs : List UInt8) : beBytes bs.length (beNat bs) = bs := by
  induction bs using List.reverseRecOn with
  | nil => rfl
  | append_singleton bs b ih =>
      have hbyte := b.toNat_lt
      have hdiv : (256 * beNat bs + b.toNat) / 256 = beNat bs := by omega
      have hlast : UInt8.ofNat (256 * beNat bs + b.toNat) = b := by
        apply UInt8.toNat_inj.mp
        rw [UInt8.toNat_ofNat']
        omega
      rw [List.length_append, List.length_singleton, beNat_concat, beBytes, hdiv, hlast, ih]

theorem beBytesInt_beInt {w : Nat} {bs : List UInt8} (h : bs.length = w) :
    beBytesInt w (beInt w bs) = bs := by
  have hlt := beNat_lt bs
  have hmod : (beInt w bs % (256 ^ w : Nat)).toNat = beNat bs := by
    rw [beInt, Int.bmod_emod, ← h, Int.emod_eq_of_lt (by omega) (by omega), Int.toNat_natCast]
  rw [beBytesInt, hmod, ← h, beBytes_beNat]

end Youth.Lib
