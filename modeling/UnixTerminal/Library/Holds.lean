import Mathlib.Data.List.Basic
import Mathlib.Data.List.GetD
import Mathlib.Logic.Function.Basic

set_option autoImplicit false

/-! # Lists laid out in memory

`Holds mem off l` says that the memory `mem` holds the elements of `l`, one after another, from offset
`off` on. A list put together from parts is taken apart again with `Holds.left`, `Holds.right` and, for
a row of pieces of the same length, `Holds.piece`. -/

namespace UnixTerminal

variable {α : Type} [Inhabited α]

/-- The memory holds the list from `off` on. -/
def Holds (mem : Nat → α) (off : Nat) (l : List α) : Prop :=
  ∀ i, i < l.length → mem (off + i) = l.getD i default

instance [DecidableEq α] (mem : Nat → α) (off : Nat) (l : List α) : Decidable (Holds mem off l) :=
  inferInstanceAs (Decidable (∀ i, i < l.length → mem (off + i) = l.getD i default))

namespace Holds

variable {mem : Nat → α} {off : Nat} {l l' : List α}

theorem nil : Holds mem off [] := fun i hi => absurd hi (Nat.not_lt_zero i)

theorem left (h : Holds mem off (l ++ l')) : Holds mem off l := by
  intro i hi
  rw [h i (by rw [List.length_append]; omega), List.getD_append _ _ _ _ hi]

theorem right (h : Holds mem off (l ++ l')) : Holds mem (off + l.length) l' := by
  intro i hi
  rw [Nat.add_assoc, h (l.length + i) (by rw [List.length_append]; omega),
    List.getD_append_right _ _ _ _ (by omega), Nat.add_sub_cancel_left]

/-- A store right behind the list makes it one longer. -/
theorem push (h : Holds mem off l) (a : α) :
    Holds (Function.update mem (off + l.length) a) off (l ++ [a]) := by
  intro i hi
  rw [List.length_append, List.length_singleton] at hi
  by_cases hlast : i = l.length
  · subst hlast
    rw [Function.update_self, List.getD_append_right _ _ _ _ (Nat.le_refl _), Nat.sub_self,
      List.getD_cons_zero]
  · rw [Function.update_of_ne (by omega), h i (by omega), List.getD_append _ _ _ _ (by omega)]

/-- Piece `b` of a row of pieces, each `m` long. -/
theorem piece {f : Nat → List α} {m : Nat} (hlen : ∀ b, (f b).length = m) {n : Nat}
    (h : Holds mem off ((List.range n).flatMap f)) {b : Nat} (hb : b < n) :
    Holds mem (off + m * b) (f b) := by
  have hrow : ∀ n, ((List.range n).flatMap f).length = m * n := by
    intro n
    induction n with
    | zero => rfl
    | succ n ih => rw [List.range_succ, List.flatMap_append, List.length_append, ih,
        List.flatMap_singleton, hlen, Nat.mul_succ]
  induction n with
  | zero => exact absurd hb (Nat.not_lt_zero b)
  | succ n ih =>
      rw [List.range_succ, List.flatMap_append, List.flatMap_singleton] at h
      rcases Nat.lt_succ_iff_lt_or_eq.1 hb with hlt | rfl
      · exact ih h.left hlt
      · have hlast := h.right
        rwa [hrow] at hlast

end Holds

end UnixTerminal
