import Mathlib.Data.List.Infix

set_option autoImplicit false

/-! # Text as lines

A separator cuts a text into lines. `perLine` is what a program puts out that treats the lines one after
the other and has nothing to say about an empty one; it goes over a cut of the text at a line's start, or at
a line's end, so a program may see the text in parts. Every text has one cut behind its last separator, and
one in front of its first. -/

namespace UnixTerminal

variable {α β : Type} {sep : α}

/-! ## Where lines start and end -/

/-- A line starts behind this text. -/
def AtLineStart (sep : α) (p : List α) : Prop := ∀ c ∈ p.getLast?, c = sep

/-- A line ends in front of this text. -/
def AtLineEnd (sep : α) (u : List α) : Prop := ∀ c ∈ u.head?, c = sep

theorem atLineStart_nil : AtLineStart sep [] := by simp [AtLineStart]

theorem atLineEnd_nil : AtLineEnd sep [] := by simp [AtLineEnd]

theorem atLineStart_concat (p : List α) : AtLineStart sep (p ++ [sep]) := by simp [AtLineStart]

theorem atLineEnd_cons (u : List α) : AtLineEnd sep (sep :: u) := by simp [AtLineEnd]

theorem atLineStart_reverse {u : List α} : AtLineStart sep u.reverse ↔ AtLineEnd sep u := by
  rw [AtLineStart, AtLineEnd, List.getLast?_reverse]

theorem AtLineEnd.cases {u : List α} (h : AtLineEnd sep u) : u = [] ∨ ∃ u', u = sep :: u' := by
  cases u with
  | nil => exact Or.inl rfl
  | cons c u' =>
      obtain rfl : c = sep := h c (by simp)
      exact Or.inr ⟨u', rfl⟩

theorem AtLineStart.cases {p : List α} (h : AtLineStart sep p) : p = [] ∨ ∃ q, p = q ++ [sep] := by
  rw [← List.reverse_reverse p, atLineStart_reverse] at h
  rcases h.cases with hnil | ⟨u, hu⟩
  · exact Or.inl (List.reverse_eq_nil_iff.1 hnil)
  · refine Or.inr ⟨u.reverse, ?_⟩
    rw [← List.reverse_reverse p, hu, List.reverse_cons]

theorem AtLineStart.eq_nil_of_append {p r : List α} (h : AtLineStart sep (p ++ r)) (hr : sep ∉ r) :
    r = [] := by
  rcases List.eq_nil_or_concat r with rfl | ⟨q, c, rfl⟩
  · rfl
  · obtain rfl : c = sep := h c (by simp)
    exact absurd (by simp) hr

/-- The cut in front of the first separator. -/
theorem exists_first_line (sep : α) (b : List α) : ∃ l u, b = l ++ u ∧ sep ∉ l ∧ AtLineEnd sep u := by
  induction b with
  | nil => exact ⟨[], [], rfl, by simp, atLineEnd_nil⟩
  | cons c b ih =>
      rcases Classical.em (c = sep) with rfl | hc
      · exact ⟨[], c :: b, rfl, by simp, atLineEnd_cons b⟩
      · obtain ⟨l, u, rfl, hl, hu⟩ := ih
        exact ⟨c :: l, u, rfl, by simp [hl, Ne.symm hc], hu⟩

/-- The cut behind the last separator. -/
theorem exists_last_line (sep : α) (b : List α) : ∃ p r, b = p ++ r ∧ AtLineStart sep p ∧ sep ∉ r := by
  obtain ⟨l, u, hb, hl, hu⟩ := exists_first_line sep b.reverse
  refine ⟨u.reverse, l.reverse, ?_, atLineStart_reverse.2 hu, by simpa using hl⟩
  rw [← List.reverse_append, ← hb, List.reverse_reverse]

/-- Complete lines, each with its separator. -/
inductive CompleteLines (sep : α) : List α → Prop
  | nil : CompleteLines sep []
  | line {l p : List α} : sep ∉ l → CompleteLines sep p → CompleteLines sep (l ++ sep :: p)

theorem AtLineStart.completeLines {p : List α} (h : AtLineStart sep p) : CompleteLines sep p := by
  -- by induction on the length, with the first line taken off
  have hle : ∀ n (p : List α), p.length ≤ n → AtLineStart sep p → CompleteLines sep p := by
    intro n
    induction n with
    | zero =>
        intro p hn _
        rw [List.length_eq_zero_iff.1 (Nat.le_zero.1 hn)]
        exact .nil
    | succ n ih =>
        intro p hn hp
        obtain ⟨l, u, rfl, hl, hu⟩ := exists_first_line sep p
        rcases hu.cases with rfl | ⟨u', rfl⟩
        · rw [List.append_nil] at hp ⊢
          rcases hp.cases with rfl | ⟨q, rfl⟩
          · exact .nil
          · exact absurd (List.mem_append_right q (List.mem_singleton_self sep)) hl
        · rw [List.length_append, List.length_cons] at hn
          refine .line hl (ih u' (by omega) (fun c hc => hp c ?_))
          rw [List.getLast?_append, List.getLast?_cons, Option.mem_def.1 hc]
          rfl
  exact hle p.length p (Nat.le_refl _) h

/-- There is one cut in front of the first separator. -/
theorem first_line_unique {l l' u u' : List α} (hl : sep ∉ l) (hl' : sep ∉ l') (hu : AtLineEnd sep u)
    (hu' : AtLineEnd sep u') (h : l ++ u = l' ++ u') : l = l' ∧ u = u' := by
  induction l generalizing l' with
  | nil =>
      cases l' with
      | nil => exact ⟨rfl, h⟩
      | cons c l' =>
          rw [List.nil_append, List.cons_append] at h
          obtain rfl : c = sep := hu c (by simp [h])
          exact absurd List.mem_cons_self hl'
  | cons c l ih =>
      cases l' with
      | nil =>
          rw [List.nil_append, List.cons_append] at h
          obtain rfl : c = sep := hu' c (by simp [← h])
          exact absurd List.mem_cons_self hl
      | cons c' l' =>
          obtain ⟨rfl, htail⟩ := List.cons.inj h
          obtain ⟨rfl, hrest⟩ := ih (List.not_mem_of_not_mem_cons hl) (List.not_mem_of_not_mem_cons hl') htail
          exact ⟨rfl, hrest⟩

/-- There is one cut behind the last separator. -/
theorem last_line_unique {p p' r r' : List α} (hp : AtLineStart sep p) (hp' : AtLineStart sep p')
    (hr : sep ∉ r) (hr' : sep ∉ r') (h : p ++ r = p' ++ r') : p = p' ∧ r = r' := by
  rw [← List.reverse_reverse p, atLineStart_reverse] at hp
  rw [← List.reverse_reverse p', atLineStart_reverse] at hp'
  have hrev : r.reverse ++ p.reverse = r'.reverse ++ p'.reverse := by
    rw [← List.reverse_append, ← List.reverse_append, h]
  obtain ⟨hrr, hpp⟩ := first_line_unique (by simpa using hr) (by simpa using hr') hp hp' hrev
  exact ⟨List.reverse_inj.1 hpp, List.reverse_inj.1 hrr⟩

/-! ## One line after the other -/

section PerLine

variable [BEq α] [LawfulBEq α]

/-- What `g` gives for the lines of a text, in their order. -/
def perLine (sep : α) (g : List α → List β) (text : List α) : List β := (text.splitOn sep).flatMap g

variable {g : List α → List β}

theorem perLine_line {l : List α} (hl : sep ∉ l) : perLine sep g l = g l := by
  rw [perLine, List.splitOn_eq_singleton hl, List.flatMap_singleton]

theorem perLine_sep (l t : List α) :
    perLine sep g (l ++ sep :: t) = perLine sep g l ++ perLine sep g t := by
  rw [perLine, List.splitOn_append_cons_self, List.flatMap_append]
  rfl

variable (hg : g [] = [])
include hg

theorem perLine_nil : perLine sep g [] = [] := by
  rw [perLine_line (by simp), hg]

/-- Text cut where a line starts. -/
theorem perLine_append_of_start {p : List α} (hp : AtLineStart sep p) (t : List α) :
    perLine sep g (p ++ t) = perLine sep g p ++ perLine sep g t := by
  rcases hp.cases with rfl | ⟨q, rfl⟩
  · rw [perLine_nil hg, List.nil_append, List.nil_append]
  · rw [perLine_sep q [], perLine_nil hg, List.append_nil, List.append_assoc, List.singleton_append,
      perLine_sep]

/-- Text cut where a line ends. -/
theorem perLine_append_of_end {u : List α} (hu : AtLineEnd sep u) (l : List α) :
    perLine sep g (l ++ u) = perLine sep g l ++ perLine sep g u := by
  rcases hu.cases with rfl | ⟨u', rfl⟩
  · rw [perLine_nil hg, List.append_nil, List.append_nil]
  · rw [perLine_sep, ← List.nil_append (sep :: u'), perLine_sep [], perLine_nil hg, List.nil_append]

end PerLine

/-- What has no separator is part of a line. -/
theorem exists_line_of_infix [BEq α] [LawfulBEq α] {l text : List α} (hl : sep ∉ l) (h : l <:+: text) :
    ∃ line ∈ text.splitOn sep, l <:+: line := by
  obtain ⟨a, b, rfl⟩ := h
  obtain ⟨p, r, rfl, hp, hr⟩ := exists_last_line sep a
  obtain ⟨l', u, rfl, hl', hu⟩ := exists_first_line sep b
  have hline : sep ∉ r ++ l ++ l' := by simp [hr, hl, hl']
  have hmem : r ++ l ++ l' ∈ (r ++ l ++ l' ++ u).splitOn sep := by
    rcases hu.cases with rfl | ⟨u', rfl⟩
    · rw [List.append_nil, List.splitOn_eq_singleton hline]
      exact List.mem_singleton_self _
    · rw [List.splitOn_append_cons_self_of_not_mem hline]
      exact List.mem_cons_self
  refine ⟨r ++ l ++ l', ?_, ⟨r, l', rfl⟩⟩
  rcases hp.cases with rfl | ⟨q, rfl⟩
  · simpa using hmem
  · have htext : q ++ [sep] ++ r ++ l ++ (l' ++ u) = q ++ sep :: (r ++ l ++ l' ++ u) := by simp
    rw [htext, List.splitOn_append_cons_self]
    exact List.mem_append_right _ hmem

/-- A line has no separator in it. -/
theorem not_mem_of_mem_splitOn [DecidableEq α] {text l : List α} (h : l ∈ text.splitOn sep) : sep ∉ l := by
  induction text generalizing l with
  | nil =>
      rw [List.splitOn_nil, List.mem_singleton] at h
      simp [h]
  | cons x text ih =>
      rw [List.splitOn_cons_eq_if_modifyHead] at h
      split at h
      next =>
        rcases List.mem_cons.1 h with rfl | h
        · simp
        · exact ih h
      next hx =>
        obtain ⟨line, lines, hlines⟩ := List.exists_cons_of_ne_nil (List.splitOn_ne_nil sep text)
        rw [hlines] at h ih
        rcases List.mem_cons.1 h with rfl | h
        · have hne : sep ≠ x := fun heq => hx (by simp [heq])
          simpa [hne] using ih List.mem_cons_self
        · exact ih (List.mem_cons_of_mem line h)

end UnixTerminal
