import Mathlib.Data.Nat.Digits.Lemmas

set_option autoImplicit false

/-! # Numerals

A number written in a base, with any characters for the digits: the digits of `Nat.digits`, the most
significant one first, and the digit zero for the number zero. Reading is the usual scheme from left to
right. What is read back is the number that was written, so no two numbers have one numeral. -/

namespace UnixTerminal

variable {α : Type}

/-- The numeral of `v` in base `r`. -/
def numeral (char : Nat → α) (r v : Nat) : List α :=
  if v = 0 then [char 0] else ((Nat.digits r v).map char).reverse

/-- The value of a string of digits. -/
def readNumeral (val : α → Nat) (r : Nat) (s : List α) : Nat :=
  s.foldl (fun n c => n * r + val c) 0

variable {char : Nat → α} {val : α → Nat} {r : Nat}

theorem numeral_of_pos {v : Nat} (hv : 0 < v) :
    numeral char r v = ((Nat.digits r v).map char).reverse :=
  if_neg (Nat.pos_iff_ne_zero.1 hv)

theorem numeral_ne_nil (v : Nat) : numeral char r v ≠ [] := by
  unfold numeral
  split_ifs with hv
  · exact List.cons_ne_nil _ _
  · simpa [Nat.digits_eq_nil_iff_eq_zero] using hv

/-- Only digits below the base are used. -/
theorem exists_of_mem_numeral (hr : 1 < r) {v : Nat} {c : α} (h : c ∈ numeral char r v) :
    ∃ d, d < r ∧ c = char d := by
  unfold numeral at h
  split_ifs at h with hv
  · exact ⟨0, by omega, List.mem_singleton.1 h⟩
  · obtain ⟨d, hd, rfl⟩ := List.mem_map.1 (List.mem_reverse.1 h)
    exact ⟨d, Nat.digits_lt_base hr hd, rfl⟩

/-- No leading zero, but for the number zero. -/
theorem head?_numeral (hr : 1 < r) {v : Nat} (hv : 0 < v) :
    ∃ d, 0 < d ∧ d < r ∧ (numeral char r v).head? = some (char d) := by
  have hne : Nat.digits r v ≠ [] := Nat.digits_ne_nil_iff_ne_zero.2 (by omega)
  refine ⟨(Nat.digits r v).getLast hne, ?_, ?_, ?_⟩
  · exact Nat.pos_of_ne_zero (Nat.getLast_digit_ne_zero r (by omega))
  · exact Nat.digits_lt_base hr (List.getLast_mem hne)
  · rw [numeral_of_pos hv, List.head?_reverse, List.getLast?_map, List.getLast?_eq_some_getLast hne]
    rfl

theorem length_numeral_le (hr : 1 < r) {v n : Nat} (hn : 0 < n) (h : v < r ^ n) :
    (numeral char r v).length ≤ n := by
  unfold numeral
  split_ifs with hv
  · exact hn
  · rw [List.length_reverse, List.length_map]
    exact (Nat.digits_length_le_iff hr v).2 h

/-- Zeros in front of a string of digits do not count. -/
theorem readNumeral_replicate_append {c : α} (hc : val c = 0) (n : Nat) (s : List α) :
    readNumeral val r (List.replicate n c ++ s) = readNumeral val r s := by
  induction n with
  | zero => rfl
  | succ n ih =>
      rw [List.replicate_succ, List.cons_append, readNumeral, List.foldl_cons, hc, Nat.zero_mul,
        Nat.zero_add]
      exact ih

theorem readNumeral_reverse (ds : List Nat) (hval : ∀ d ∈ ds, val (char d) = d) :
    readNumeral val r (ds.map char).reverse = Nat.ofDigits r ds := by
  induction ds with
  | nil => rfl
  | cons d ds ih =>
      have hds := ih (fun e he => hval e (List.mem_cons_of_mem d he))
      unfold readNumeral at hds ⊢
      rw [List.map_cons, List.reverse_cons, List.foldl_append, hds, Nat.ofDigits_cons,
        List.foldl_cons, List.foldl_nil, hval d List.mem_cons_self]
      ring

/-- **What is written is read back.** -/
theorem readNumeral_numeral (hr : 1 < r) (hval : ∀ d, d < r → val (char d) = d) (v : Nat) :
    readNumeral val r (numeral char r v) = v := by
  unfold numeral
  split_ifs with hv
  · have h0 := hval 0 (by omega)
    simp [readNumeral, h0, hv]
  · rw [readNumeral_reverse _ (fun d hd => hval d (Nat.digits_lt_base hr hd)), Nat.ofDigits_digits]

/-- **Different numbers have different numerals.** -/
theorem numeral_injective (hr : 1 < r) (hval : ∀ d, d < r → val (char d) = d) :
    Function.Injective (numeral char r) :=
  Function.LeftInverse.injective (readNumeral_numeral hr hval)

end UnixTerminal
