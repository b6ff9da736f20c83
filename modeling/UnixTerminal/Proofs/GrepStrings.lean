import UnixTerminal.Library.Lines
import UnixTerminal.Programs.Grep
import UnixTerminal.Proofs.NumberFormat

set_option autoImplicit false

/-! # The string functions of `grep`

`ece391_strncmp` with the length of its second string looks for a prefix, `ece391_strcpy` moves a string to
the front of its own buffer, and the search of one line in `do_one_file` prints the line if the pattern is
in it. -/

namespace UnixTerminal

/-! ## Bytes in memory -/

/-- The bytes `b` are at index `i` of a memory. -/
def BytesAt (mem : Nat → UInt8) (i : Nat) (b : List UInt8) : Prop :=
  ∀ j (h : j < b.length), mem (i + j) = b[j]

section Bytes

variable {mem mem' : Nat → UInt8} {i : Nat} {b : List UInt8}

theorem bytesAt_nil : BytesAt mem i [] := fun j h => absurd h (Nat.not_lt_zero j)

theorem bytesAt_cons {c : UInt8} : BytesAt mem i (c :: b) ↔ mem i = c ∧ BytesAt mem (i + 1) b := by
  refine ⟨fun h => ⟨h 0 (Nat.zero_lt_succ _), fun j hj => ?_⟩, fun ⟨hc, hb⟩ j hj => ?_⟩
  · rw [Nat.add_assoc, Nat.add_comm 1]
    exact h (j + 1) (Nat.succ_lt_succ hj)
  · cases j with
    | zero => exact hc
    | succ j =>
        rw [List.getElem_cons_succ, ← hb j (Nat.lt_of_succ_lt_succ hj), Nat.add_assoc, Nat.add_comm 1]

theorem bytesAt_append {a : List UInt8} :
    BytesAt mem i (a ++ b) ↔ BytesAt mem i a ∧ BytesAt mem (i + a.length) b := by
  induction a generalizing i with
  | nil => simp [bytesAt_nil]
  | cons c a ih =>
      rw [List.cons_append, bytesAt_cons, bytesAt_cons, ih, and_assoc, List.length_cons, Nat.add_assoc,
        Nat.add_comm 1]

theorem BytesAt.congr (h : BytesAt mem i b) (heq : ∀ x, i ≤ x → x < i + b.length → mem' x = mem x) :
    BytesAt mem' i b := by
  intro j hj
  rw [heq _ (Nat.le_add_right i j) (Nat.add_lt_add_left hj i)]
  exact h j hj

theorem StringAt.bytesAt (h : StringAt mem i b) : BytesAt mem i b := h.char

theorem BytesAt.stringAt (h : BytesAt mem i b) (hnul : mem (i + b.length) = 0) : StringAt mem i b :=
  ⟨h, hnul⟩

theorem StringAt.tail {c : UInt8} (h : StringAt mem i (c :: b)) : StringAt mem (i + 1) b := by
  refine (bytesAt_cons.1 h.bytesAt).2.stringAt ?_
  rw [← h.nul, List.length_cons, Nat.add_assoc, Nat.add_comm 1]

end Bytes

/-! ## `ece391_fdputs`, `ece391_strncmp` and `ece391_strcpy` -/

theorem yields_strlen {mem : Nat → UInt8} {i : Nat} {s : List UInt8} (h : StringAt mem i s)
    (hs : ∀ c ∈ s, c ≠ 0) : Yields (fun fuel => ece391Strlen fuel mem i) s.length :=
  ⟨s.length, fun _ hfuel => strlenAt_eq h hs hfuel⟩

theorem yields_fdputs {mem : Nat → UInt8} {i : Nat} {s : List UInt8} (h : StringAt mem i s)
    (hs : ∀ c ∈ s, c ≠ 0) : Yields (fun fuel => ece391Fdputs fuel mem i) s := by
  have hbytes : (List.range s.length).map (fun j => mem (i + j)) = s := by
    refine List.ext_getElem (by simp) (fun j hj _ => ?_)
    simp only [List.length_map, List.length_range] at hj
    simpa using h.char j hj
  have hmap := (yields_strlen h hs).map (fun len => (List.range len).map (fun j => mem (i + j)))
  rwa [hbytes] at hmap

/-- The comparison finds the second string in front of the first one. -/
theorem strncmp_eq_zero_iff {m₁ m₂ : Nat → UInt8} {p : List UInt8} (hp : ∀ c ∈ p, c ≠ 0) :
    ∀ {i j : Nat} {u : List UInt8}, StringAt m₁ i u → BytesAt m₂ j p →
      (ece391Strncmp m₁ m₂ i j p.length = 0 ↔ p <+: u) := by
  induction p with
  | nil =>
      intro i j u _ _
      simp [ece391Strncmp]
  | cons c p ih =>
      intro i j u hu hcp
      obtain ⟨hc, hp'⟩ := bytesAt_cons.1 hcp
      have hc0 : c ≠ 0 := hp c List.mem_cons_self
      have hdiff : ∀ d : UInt8, d ≠ c → (d.toNat : Int) - (c.toNat : Int) ≠ 0 := by
        intro d hd hzero
        exact hd (UInt8.toNat_inj.1 (by omega))
      rw [List.length_cons, ece391Strncmp, hc]
      cases u with
      | nil =>
          have hnul : m₁ i = 0 := hu.nul
          rw [hnul, if_neg hc0.symm]
          exact ⟨fun h => absurd h (hdiff 0 hc0.symm), fun h => absurd (List.prefix_nil.1 h) (by simp)⟩
      | cons d u =>
          have hd : m₁ i = d := (bytesAt_cons.1 hu.bytesAt).1
          rw [hd, List.cons_prefix_cons]
          by_cases hdc : d = c
          · subst hdc
            rw [if_pos rfl]
            rcases List.eq_nil_or_concat p with rfl | ⟨q, e, rfl⟩
            · simp
            · rw [if_neg (by simp [hc0]), ih (fun e he => hp e (List.mem_cons_of_mem _ he)) hu.tail hp']
              simp
          · rw [if_neg hdc]
            exact ⟨fun h => absurd h (hdiff d hdc), fun h => absurd h.1.symm hdc⟩

/-- The memory behind the first `n` bytes of a copy from `src` down to the front. -/
def copiedDown (mem : Nat → UInt8) (src n : Nat) : Nat → UInt8 :=
  fun x => if x < n then mem (src + x) else mem x

/-- What is read next was not stored to. -/
theorem strcpy_pass_copiedDown (mem : Nat → UInt8) (src n : Nat) :
    StrcpyLoop.pass ⟨copiedDown mem src n, n, src + n⟩ =
      some (if mem (src + n) ≠ 0 then .inr ⟨copiedDown mem src (n + 1), n + 1, src + (n + 1)⟩
        else .inl (copiedDown mem src (n + 1))) := by
  have hread : copiedDown mem src n (src + n) = mem (src + n) := if_neg (by omega)
  have hstore : Function.update (copiedDown mem src n) n (mem (src + n)) = copiedDown mem src (n + 1) := by
    funext x
    by_cases hx : x = n
    · subst hx
      simp [copiedDown]
    · have hlt : x < n ↔ x < n + 1 := by omega
      rw [Function.update_of_ne hx, copiedDown, copiedDown]
      simp only [hlt]
  rw [StrcpyLoop.pass]
  simp only [hread, hstore]
  rfl

/-- The string is moved down to the front. -/
theorem yields_strcpy {mem : Nat → UInt8} {src : Nat} {r : List UInt8} (h : StringAt mem src r)
    (hr : ∀ c ∈ r, c ≠ 0) :
    Yields (fun fuel => ece391Strcpy fuel mem 0 src) (copiedDown mem src (r.length + 1)) := by
  -- by induction on the characters that are left
  have hleft : ∀ k n, n + k = r.length →
      Breaks (fun _ => StrcpyLoop.pass) ⟨copiedDown mem src n, n, src + n⟩
        (copiedDown mem src (r.length + 1)) := by
    intro k
    induction k with
    | zero =>
        intro n hn
        obtain rfl : n = r.length := hn
        refine Breaks.here ?_
        rw [strcpy_pass_copiedDown, h.nul, if_neg (by simp)]
        exact yields_some _
    | succ k ih =>
        intro n hn
        refine Breaks.pass ?_ (ih (n + 1) (by omega))
        rw [strcpy_pass_copiedDown, if_pos (h.ne_zero hr (by omega))]
        exact yields_some _
  have hstart : copiedDown mem src 0 = mem := by
    funext x
    exact if_neg (Nat.not_lt_zero x)
  have hrun := (hleft r.length 0 (Nat.zero_add _)).yields
  rw [hstart] at hrun
  exact hrun

theorem bytesAt_copiedDown {mem : Nat → UInt8} {src n : Nat} {r : List UInt8} (h : BytesAt mem src r)
    (hn : r.length ≤ n) : BytesAt (copiedDown mem src n) 0 r := by
  intro j hj
  rw [Nat.zero_add, copiedDown, if_pos (by omega)]
  exact h j hj

end UnixTerminal
