import Mathlib.Data.List.GetD
import Mathlib.Logic.Function.Basic

set_option autoImplicit false

/-! # Arrays that remember their stores

An array of C is memory behind a pointer: a store past its end is a store all the same. `TracedArray`
pairs this memory with the indices that were stored to, so that "every store is inside the array" can
be said of a piece of code, and `write` is what most loops amount to: consecutive stores from one index
on. -/

namespace UnixTerminal

/-- Memory by index, and the indices of the stores made to it, in their order. -/
@[ext]
structure TracedArray (α : Type) where
  mem : Nat → α
  stores : List Nat

namespace TracedArray

variable {α : Type}

/-- Memory that nothing was stored to yet. -/
def fresh (mem : Nat → α) : TracedArray α := ⟨mem, []⟩

/-- One store. -/
def store (a : TracedArray α) (i : Nat) (c : α) : TracedArray α :=
  ⟨Function.update a.mem i c, a.stores ++ [i]⟩

/-- Consecutive stores, from index `i` on. -/
def write : TracedArray α → Nat → List α → TracedArray α
  | a, _, [] => a
  | a, i, c :: s => (a.store i c).write (i + 1) s

/-- The first `n` elements. -/
def take (a : TracedArray α) (n : Nat) : List α := (List.range n).map a.mem

/-- No store past the first `size` elements. -/
def Within (a : TracedArray α) (size : Nat) : Prop := ∀ i ∈ a.stores, i < size

variable (a : TracedArray α)

@[simp] theorem write_nil (i : Nat) : a.write i [] = a := rfl

theorem write_append (i : Nat) (s t : List α) :
    a.write i (s ++ t) = (a.write i s).write (i + s.length) t := by
  induction s generalizing a i with
  | nil => rfl
  | cons c s ih =>
      rw [List.cons_append, write, write, ih, List.length_cons, Nat.add_assoc, Nat.add_comm 1]

/-- One store behind consecutive ones. -/
theorem store_write {i j : Nat} {s : List α} (c : α) (hj : j = i + s.length) :
    (a.write i s).store j c = a.write i (s ++ [c]) := by
  rw [write_append, hj]
  rfl

theorem stores_write (i : Nat) (s : List α) :
    (a.write i s).stores = a.stores ++ List.range' i s.length := by
  induction s generalizing a i with
  | nil => simp [write]
  | cons c s ih => simp [write, ih, store, List.range'_succ]

/-- The elements in front of the stores. -/
theorem mem_write_of_lt {i j : Nat} (s : List α) (h : j < i) : (a.write i s).mem j = a.mem j := by
  induction s generalizing a i with
  | nil => rfl
  | cons c s ih =>
      rw [write, ih _ (Nat.lt_succ_of_lt h)]
      exact Function.update_of_ne (Nat.ne_of_lt h) _ _

/-- The elements stored. -/
theorem mem_write_add {i j : Nat} {s : List α} (h : j < s.length) :
    (a.write i s).mem (i + j) = s[j] := by
  induction s generalizing a i j with
  | nil => exact absurd h (Nat.not_lt_zero j)
  | cons c s ih =>
      rw [write]
      cases j with
      | zero =>
          rw [Nat.add_zero i, mem_write_of_lt _ _ (Nat.lt_add_one i)]
          exact Function.update_self _ _ _
      | succ j =>
          rw [← Nat.add_assoc, Nat.add_right_comm, ih _ (Nat.lt_of_succ_lt_succ h)]
          rfl

/-- The elements behind the stores. -/
theorem mem_write_of_le {i j : Nat} (s : List α) (h : i + s.length ≤ j) :
    (a.write i s).mem j = a.mem j := by
  induction s generalizing a i with
  | nil => rfl
  | cons c s ih =>
      rw [List.length_cons] at h
      rw [write, ih _ (by omega)]
      exact Function.update_of_ne (by omega) _ _

/-- What consecutive stores leave, read from where they start. -/
theorem take_write {n : Nat} {s : List α} (h : s.length ≤ n) :
    (a.write 0 s).take n
      = s ++ (List.range (n - s.length)).map (fun j => a.mem (s.length + j)) := by
  refine List.ext_getElem (by simp [take]; omega) (fun j h1 h2 => ?_)
  simp only [take, List.getElem_map, List.getElem_range]
  by_cases hj : j < s.length
  · rw [List.getElem_append_left hj, ← a.mem_write_add (i := 0) hj, Nat.zero_add]
  · rw [List.getElem_append_right (by omega), mem_write_of_le _ _ (by omega)]
    simp only [List.getElem_map, List.getElem_range]
    congr 1
    omega

/-- One more store. -/
theorem Within.store {a : TracedArray α} {i size : Nat} (ha : a.Within size) (hi : i < size) (c : α) :
    (a.store i c).Within size := by
  intro j hj
  rcases List.mem_append.1 hj with hj | hj
  · exact ha j hj
  · rw [List.mem_singleton.1 hj]
    exact hi

theorem within_fresh (mem : Nat → α) (size : Nat) : (fresh mem).Within size :=
  fun _ h => absurd h (List.not_mem_nil)

/-! ## Stores to one part of the array -/

/-- `b` is `a` after stores to `lo, …, hi - 1`. -/
structure WrittenIn (a b : TracedArray α) (lo hi : Nat) : Prop where
  stores : ∀ i ∈ b.stores, i ∈ a.stores ∨ lo ≤ i ∧ i < hi
  frame : ∀ i, i < lo ∨ hi ≤ i → b.mem i = a.mem i

namespace WrittenIn

variable {a} {b c : TracedArray α} {lo hi : Nat}

theorem refl (a : TracedArray α) (lo hi : Nat) : WrittenIn a a lo hi :=
  ⟨fun _ h => Or.inl h, fun _ _ => rfl⟩

theorem trans (h : WrittenIn a b lo hi) (h' : WrittenIn b c lo hi) : WrittenIn a c lo hi := by
  refine ⟨fun i hi => ?_, fun i hi => (h'.frame i hi).trans (h.frame i hi)⟩
  rcases h'.stores i hi with hb | hin
  · exact h.stores i hb
  · exact Or.inr hin

theorem mono (h : WrittenIn a b lo hi) {lo' hi' : Nat} (hlo : lo' ≤ lo) (hhi : hi ≤ hi') :
    WrittenIn a b lo' hi' :=
  ⟨fun i hi => (h.stores i hi).imp_right (fun hin => ⟨by omega, by omega⟩),
    fun i hi => h.frame i (by omega)⟩

theorem store (h : WrittenIn a b lo hi) {i : Nat} (hlo : lo ≤ i) (hhi : i < hi) (x : α) :
    WrittenIn a (b.store i x) lo hi := by
  refine ⟨fun j hj => ?_, fun j hj => (Function.update_of_ne (by omega) _ _).trans (h.frame j hj)⟩
  rcases List.mem_append.1 hj with hj | hj
  · exact h.stores j hj
  · rw [List.mem_singleton.1 hj]
    exact Or.inr ⟨hlo, hhi⟩

theorem write (h : WrittenIn a b lo hi) {i : Nat} {s : List α} (hlo : lo ≤ i) (hhi : i + s.length ≤ hi) :
    WrittenIn a (b.write i s) lo hi := by
  induction s generalizing b i with
  | nil => exact h
  | cons x s ih =>
      rw [List.length_cons] at hhi
      exact ih (h.store hlo (by omega) x) (by omega) (by omega)

theorem within (h : WrittenIn a b lo hi) {size : Nat} (ha : a.Within size) (hsize : hi ≤ size) :
    b.Within size := by
  intro i hi
  rcases h.stores i hi with ha' | hin
  · exact ha i ha'
  · omega

end WrittenIn

/-! ## Reversal in place -/

/-- Exchange two elements. -/
def swap (i j : Nat) : TracedArray α := (a.store j (a.mem i)).store i (a.mem j)

/-- The first `n` exchanges that reverse the `len` elements from index `s` on, from both ends inwards. -/
def swaps (s len : Nat) : Nat → TracedArray α
  | 0 => a
  | n + 1 => (swaps s len n).swap (s + n) (s + (len - 1 - n))

theorem mem_swap (i j k : Nat) :
    (a.swap i j).mem k = if k = i then a.mem j else if k = j then a.mem i else a.mem k := by
  simp only [swap, store, Function.update_apply]

/-- After `n` exchanges the first and the last `n` elements are in their new places. -/
theorem mem_swaps {s len n j : Nat} (hn : 2 * n ≤ len) (hj : j < len) :
    (a.swaps s len n).mem (s + j)
      = a.mem (s + if j < n ∨ len - n ≤ j then len - 1 - j else j) := by
  induction n generalizing j with
  | zero =>
      have hnot : ¬ (j < 0 ∨ len - 0 ≤ j) := by omega
      rw [if_neg hnot]
      rfl
  | succ n ih =>
      have hmid : ¬ (n < n ∨ len - n ≤ n) := by omega
      have hmid' : ¬ (len - 1 - n < n ∨ len - n ≤ len - 1 - n) := by omega
      rw [swaps, mem_swap, ih (by omega) (by omega : len - 1 - n < len), ih (by omega) hj,
        ih (by omega) (by omega : n < len), if_neg hmid, if_neg hmid']
      by_cases hleft : j = n
      · subst hleft
        rw [if_pos rfl, if_pos (Or.inl (Nat.lt_add_one j))]
      · by_cases hright : j = len - 1 - n
        · have hback : len - 1 - j = n := by omega
          rw [if_neg (by omega), if_pos (by omega), if_pos (Or.inr (by omega)), hback]
        · have hiff : (j < n ∨ len - n ≤ j) ↔ (j < n + 1 ∨ len - (n + 1) ≤ j) := by omega
          rw [if_neg (by omega), if_neg (by omega)]
          simp only [hiff]

theorem writtenIn_swaps {s len n : Nat} (hn : 2 * n ≤ len) :
    WrittenIn a (a.swaps s len n) s (s + len) := by
  induction n with
  | zero => exact WrittenIn.refl a _ _
  | succ n ih =>
      have h := ih (by omega)
      exact (h.store (by omega) (by omega) _).store (by omega) (by omega) _

/-- **Half as many exchanges reverse all elements.** -/
theorem mem_swaps_half {s len j : Nat} (hj : j < len) :
    (a.swaps s len (len / 2)).mem (s + j) = a.mem (s + (len - 1 - j)) := by
  rw [a.mem_swaps (by omega) hj]
  split
  · rfl
  · -- the element in the middle
    congr 2
    omega

end TracedArray

end UnixTerminal
