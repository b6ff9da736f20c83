import Mathlib.Algebra.Group.Nat.Defs

set_option autoImplicit false

/-! # Masks on 32-bit words

A word made of a field and flags, `x ||| flags`, and the masks that take it apart again. -/

namespace UnixTerminal

theorem or_and_distrib (x y m : UInt32) : (x ||| y) &&& m = (x &&& m) ||| (y &&& m) := by
  apply UInt32.toBitVec_inj.1
  simp only [UInt32.toBitVec_and, UInt32.toBitVec_or]
  ext i
  simp [Bool.and_or_distrib_right]

/-- A mask leaves a word alone that is zero outside it. -/
theorem and_eq_self {x m l : UInt32} (hl : x &&& l = 0) (hm : m ||| l = 0xFFFFFFFF) : x &&& m = x := by
  have h : x &&& (m ||| l) = (x &&& m) ||| (x &&& l) := by
    rw [UInt32.and_comm, or_and_distrib, UInt32.and_comm m, UInt32.and_comm l]
  rw [hl, hm, UInt32.or_zero] at h
  rw [← h]
  exact UInt32.and_neg_one

/-- The field of `x ||| flags`, by a mask that covers the field and no flag. -/
theorem or_and_field {x flags m l : UInt32} (hl : x &&& l = 0) (hm : m ||| l = 0xFFFFFFFF)
    (hf : flags &&& m = 0) : (x ||| flags) &&& m = x := by
  rw [or_and_distrib, and_eq_self hl hm, hf, UInt32.or_zero]

/-- The flags of `x ||| flags`, by a mask outside the field. -/
theorem or_and_flags {x flags m l : UInt32} (hl : x &&& l = 0) (hm : l &&& m = m) :
    (x ||| flags) &&& m = flags &&& m := by
  have hx : x &&& m = 0 := by rw [← hm, ← UInt32.and_assoc, hl, UInt32.zero_and]
  rw [or_and_distrib, hx, UInt32.zero_or]

/-- The low bits of a word are its remainder. -/
theorem toNat_and_low {x l : UInt32} {n : Nat} (hl : l.toNat = 2 ^ n - 1) :
    (x &&& l).toNat = x.toNat % 2 ^ n := by
  rw [UInt32.toNat_and, hl, Nat.and_two_pow_sub_one_eq_mod]

end UnixTerminal
