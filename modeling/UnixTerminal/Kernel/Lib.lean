import Mathlib.Data.List.TakeWhile
import Mathlib.Logic.Function.Basic

set_option autoImplicit false

/-! # The string routines of `lib.c`

A string argument is the list of the bytes that lie from the pointer on; the bytes behind the end
of the list count as NUL. A destination is an object with a byte store, so that a copy that runs
over the end of a field of a struct is seen where it lands. -/

namespace UnixTerminal

/-- `strlen`. -/
def strlen : List UInt8 → Nat
  | [] => 0
  | c :: s => if c = 0 then 0 else strlen s + 1

/-- `strncmp`: the loop over `i < n`, with `int8_t` characters (signed on this target). -/
def strncmp (s1 s2 : List UInt8) : Nat → Int
  | 0 => 0
  | n + 1 =>
      if s1.headD 0 ≠ s2.headD 0 ∨ s1.headD 0 = 0 then
        (s1.headD 0).toInt8.toInt - (s2.headD 0).toInt8.toInt
      else strncmp s1.tail s2.tail n

/-- `strcpy`: copy the string and its NUL, byte after byte, from index `i` of the destination on.
    `store` writes one byte of the object the destination points into. -/
def strcpy {σ : Type} (store : σ → Nat → UInt8 → σ) (dest : σ) (i : Nat) : List UInt8 → σ
  | [] => store dest i 0
  | c :: s => if c = 0 then store dest i 0 else strcpy store (store dest i c) (i + 1) s

/-- A string as the C code sees it: the bytes before the first NUL. -/
def cstr (s : List UInt8) : List UInt8 := s.takeWhile (· ≠ 0)

theorem cstr_cons (c : UInt8) (s : List UInt8) :
    cstr (c :: s) = if c = 0 then [] else c :: cstr s := by
  by_cases h : c = 0 <;> simp [cstr, h]

theorem strlen_eq_length_cstr (s : List UInt8) : strlen s = (cstr s).length := by
  induction s with
  | nil => rfl
  | cons c s ih =>
      rw [strlen, cstr_cons]
      split
      · rfl
      · simp [ih]

/-- The string seen from its head, with the NUL behind the end of the list. -/
theorem cstr_eq_headD (s : List UInt8) :
    cstr s = if s.headD 0 = 0 then [] else s.headD 0 :: cstr s.tail := by
  cases s with
  | nil => simp [cstr]
  | cons c s => simpa using cstr_cons c s

theorem cstr_of_no_nul {s : List UInt8} (h : ∀ c ∈ s, c ≠ 0) : cstr s = s := by
  induction s with
  | nil => rfl
  | cons c s ih =>
      rw [cstr_cons, if_neg (h c List.mem_cons_self),
        ih (fun d hd => h d (List.mem_cons_of_mem _ hd))]

/-- A string ends at its NUL. -/
theorem cstr_append_nul {s : List UInt8} (h : ∀ c ∈ s, c ≠ 0) (t : List UInt8) :
    cstr (s ++ 0 :: t) = s := by
  induction s with
  | nil => rfl
  | cons c s ih =>
      rw [List.cons_append, cstr_cons, if_neg (h c List.mem_cons_self),
        ih (fun d hd => h d (List.mem_cons_of_mem _ hd))]

theorem ne_zero_of_mem_cstr {s : List UInt8} {c : UInt8} (h : c ∈ cstr s) : c ≠ 0 := by
  simpa using List.mem_takeWhile_imp h

theorem cstr_cstr (s : List UInt8) : cstr (cstr s) = cstr s :=
  cstr_of_no_nul (fun _ hc => ne_zero_of_mem_cstr hc)

/-- Two bytes with the same signed value are equal. -/
theorem toInt8_sub_eq_zero {a b : UInt8} : a.toInt8.toInt - b.toInt8.toInt = 0 ↔ a = b := by
  constructor
  · intro h
    have h' : a.toInt8 = b.toInt8 := Int8.toInt_inj.1 (by omega)
    simpa using congrArg Int8.toUInt8 h'
  · rintro rfl
    omega

/-- `strncmp` answers 0 exactly when the two strings agree on their first `n` characters. -/
theorem strncmp_eq_zero (s1 s2 : List UInt8) (n : Nat) :
    strncmp s1 s2 n = 0 ↔ (cstr s1).take n = (cstr s2).take n := by
  induction n generalizing s1 s2 with
  | zero => simp [strncmp]
  | succ n ih =>
      rw [strncmp, cstr_eq_headD s1, cstr_eq_headD s2]
      generalize s1.headD 0 = a
      generalize s2.headD 0 = b
      by_cases hab : a = b
      · subst hab
        by_cases ha : a = 0
        · simp [ha]
        · simp [ha, ih]
      · -- the first characters differ: at most one of them is the NUL
        rw [if_pos (Or.inl hab), toInt8_sub_eq_zero]
        by_cases ha : a = 0
        · have hb : b ≠ 0 := fun hb => hab (ha.trans hb.symm)
          simp [ha, hb, Ne.symm hb]
        · by_cases hb : b = 0 <;> simp [ha, hb, hab]

/-- What every byte store of a `strcpy` keeps, the whole copy keeps. The stores go to the indices
    `i`, …, `i + strlen s`. -/
theorem strcpy_preserves {σ : Type} {store : σ → Nat → UInt8 → σ} {P : σ → Prop} (s : List UInt8) :
    ∀ (dest : σ) (i : Nat),
      (∀ d j b, i ≤ j → j ≤ i + strlen s → P d → P (store d j b)) → P dest →
      P (strcpy store dest i s) := by
  induction s with
  | nil =>
      intro dest i hstore h
      exact hstore dest i 0 (Nat.le_refl i) (Nat.le_add_right i _) h
  | cons c s ih =>
      intro dest i hstore h
      rw [strcpy]
      split
      · exact hstore dest i 0 (Nat.le_refl i) (Nat.le_add_right i _) h
      · next hc =>
          have hlen : strlen (c :: s) = strlen s + 1 := by rw [strlen, if_neg hc]
          refine ih (store dest i c) (i + 1) (fun d j b h1 h2 hd => ?_) ?_
          · exact hstore d j b (by omega) (by omega) hd
          · exact hstore dest i c (Nat.le_refl i) (by omega) h

end UnixTerminal
