import UnixTerminal.Proofs.GrepStrings

set_option autoImplicit false

/-! # The lines in the buffer of `grep`

`printedLines` is what `do_one_file` is for. Here is what its inner loop does with the bytes between
`line_start` and `last`: the lines that end there are searched one after the other, and what is left is
moved to the front, or searched as well. -/

namespace UnixTerminal

/-! ## The purpose -/

/-- What is printed for a line. -/
def printedLine (name pattern line : List UInt8) : List UInt8 :=
  if pattern <:+: line then name ++ 58 :: (line ++ [10]) else []

/-- **What `grep` prints for a file**: the lines with the pattern in them, in their order, each behind the
    name of the file and a colon. -/
def printedLines (name pattern : List UInt8) : List UInt8 → List UInt8 :=
  perLine 10 (printedLine name pattern)

/-- The strings that the arguments are. -/
structure GrepFor (a : GrepArgs) (name pattern : List UInt8) : Prop where
  name_at : StringAt a.fname 0 name
  name_nul : ∀ c ∈ name, c ≠ 0
  pattern_at : StringAt a.s 0 pattern
  pattern_nul : ∀ c ∈ pattern, c ≠ 0
  pattern_ne : pattern ≠ []
  len : a.sLen = pattern.length

theorem printedLine_nil {name pattern : List UInt8} (hpattern : pattern ≠ []) :
    printedLine name pattern [] = [] :=
  if_neg (fun h => hpattern (List.infix_nil.1 h))

variable {a : GrepArgs} {name pattern : List UInt8}

/-! ## One line -/

section Search

variable {data : Nat → UInt8} {lineStart lineEnd check : Nat} {line u : List UInt8}

theorem check_hit_iff (h : GrepFor a name pattern) (hu : StringAt data check u) :
    a.s 0 = data check ∧ ece391Strncmp data a.s check 0 a.sLen = 0 ↔ pattern <+: u := by
  rw [h.len, strncmp_eq_zero_iff h.pattern_nul hu h.pattern_at.bytesAt]
  refine ⟨And.right, fun hprefix => ⟨?_, hprefix⟩⟩
  obtain ⟨c, p, hp⟩ := List.exists_cons_of_ne_nil h.pattern_ne
  obtain ⟨t, rfl⟩ := hprefix
  have hs := h.pattern_at.bytesAt
  have hdata := hu.bytesAt
  rw [hp] at hs hdata
  rw [(bytesAt_cons.1 hs).1, (bytesAt_cons.1 hdata).1]

theorem yields_printLine (h : GrepFor a name pattern) (hline : StringAt data lineStart line)
    (hnul : ∀ c ∈ line, c ≠ 0) :
    Yields (fun fuel => printLine fuel a data lineStart) (name ++ 58 :: (line ++ [10])) :=
  (yields_fdputs h.name_at h.name_nul).bind
    ((yields_fdputs hline hnul).map (fun line => name ++ 58 :: (line ++ [10])))

/-- The search from `check` on, where `u` is left of the line. -/
theorem breaks_check (h : GrepFor a name pattern) (hline : StringAt data lineStart line)
    (hnul : ∀ c ∈ line, c ≠ 0) (hu : StringAt data check u) (hend : check + u.length = lineEnd) :
    Breaks (fun fuel => checkPass fuel a data lineStart lineEnd) check
      (if pattern <:+: u then name ++ 58 :: (line ++ [10]) else []) := by
  induction u generalizing check with
  | nil =>
      rw [if_neg (fun hin => h.pattern_ne (List.infix_nil.1 hin))]
      refine Breaks.here ?_
      have hstop : ¬check < lineEnd := by simpa using hend.symm.le
      simp only [checkPass, if_neg hstop]
      exact yields_some _
  | cons c u ih =>
      have hgo : check < lineEnd := by
        rw [← hend, List.length_cons]
        omega
      by_cases hhit : pattern <+: c :: u
      · rw [if_pos (List.infix_cons_iff.2 (Or.inl hhit))]
        refine Breaks.here ?_
        simp only [checkPass, if_pos hgo, if_pos ((check_hit_iff h hu).2 hhit)]
        exact (yields_printLine h hline hnul).map _
      · have hrest : pattern <:+: c :: u ↔ pattern <:+: u := by
          rw [List.infix_cons_iff, or_iff_right hhit]
        simp only [hrest]
        refine Breaks.pass ?_ (ih hu.tail (by rw [← hend, List.length_cons]; omega))
        simp only [checkPass, if_pos hgo, if_neg (mt (check_hit_iff h hu).1 hhit)]
        exact yields_some _

theorem yields_searchLine (h : GrepFor a name pattern) (hline : StringAt data lineStart line)
    (hnul : ∀ c ∈ line, c ≠ 0) :
    Yields (fun fuel => searchLine fuel a data lineStart (lineStart + line.length))
      (printedLine name pattern line) :=
  (breaks_check h hline hnul hline rfl).yields

end Search

/-! ## One pass -/

section Pass

variable {v : GrepVars} {lineStart : Nat} {l u : List UInt8}

/-- The scan stops at the first newline, or behind the bytes that are there. -/
theorem yields_lineEndFrom (hb : BytesAt v.data lineStart (l ++ u)) (hl : (10 : UInt8) ∉ l)
    (hu : AtLineEnd 10 u) (hlast : v.last = lineStart + (l ++ u).length) :
    Yields (fun fuel => lineEndFrom fuel v lineStart) (lineStart + l.length) := by
  obtain ⟨hbl, hbu⟩ := bytesAt_append.1 hb
  let after : Nat → Nat := fun n => lineStart + n
  have hpass : ∀ n, n < l.length →
      (decide (after n < v.last) && v.data (after n) != 10) = true ∧ after n + 1 = after (n + 1) := by
    intro n hn
    have hchar : v.data (lineStart + n) ≠ 10 := by
      rw [hbl n hn]
      exact fun h => hl (h ▸ List.getElem_mem hn)
    have hlt : lineStart + n < v.last := by
      rw [hlast, List.length_append]
      omega
    exact ⟨by simpa [after] using ⟨hlt, hchar⟩, rfl⟩
  have hstop : (decide (after l.length < v.last) && v.data (after l.length) != 10) = false := by
    rcases hu.cases with rfl | ⟨u', rfl⟩
    · simp [after, hlast]
    · simp [after, (bytesAt_cons.1 hbu).1]
  refine ⟨l.length, fun fuel hfuel => ?_⟩
  have hrun : whileRun (fun lineEnd => decide (lineEnd < v.last) && v.data lineEnd != 10) (· + 1) fuel
      (after 0) = some (after l.length) :=
    whileRun_eq hpass hstop hfuel
  exact hrun

/-- The line is searched, and ended by a NUL. -/
theorem yields_linePass_search (cnt : Nat) (h : GrepFor a name pattern) (hb : BytesAt v.data lineStart (l ++ u))
    (hl : (10 : UInt8) ∉ l) (hu : AtLineEnd 10 u) (hnul : ∀ c ∈ l, c ≠ 0)
    (hlast : v.last = lineStart + (l ++ u).length)
    (hsearch : v.data (lineStart + l.length) = 10 ∨ cnt = 0 ∨ lineStart = 0) :
    Yields (fun fuel => linePass fuel a cnt (v, lineStart))
      (if lineStart + l.length + 1 ≥ v.last then
        .inl ⟨Function.update v.data (lineStart + l.length) 0, 0, v.out ++ printedLine name pattern l⟩
      else
        .inr (⟨Function.update v.data (lineStart + l.length) 0, v.last, v.out ++ printedLine name pattern l⟩,
          lineStart + l.length + 1)) := by
  have hstr : StringAt (Function.update v.data (lineStart + l.length) 0) lineStart l := by
    refine BytesAt.stringAt ((bytesAt_append.1 hb).1.congr (fun x _ hx => ?_)) (Function.update_self _ _ _)
    exact Function.update_of_ne (Nat.ne_of_lt hx) _ _
  have hcarry : ¬(v.data (lineStart + l.length) ≠ 10 ∧ cnt ≠ 0 ∧ lineStart ≠ 0) := by tauto
  refine (yields_lineEndFrom hb hl hu hlast).bind ?_
  simp only [if_neg hcarry]
  exact (yields_searchLine h hstr hnul).map _

/-- What is left is moved to the front. -/
theorem yields_linePass_carry {cnt : Nat} {r : List UInt8} (hb : BytesAt v.data lineStart r) (hr : (10 : UInt8) ∉ r)
    (hnul : ∀ c ∈ r, c ≠ 0) (hlast : v.last = lineStart + r.length) (hdata : v.data v.last ≠ 10)
    (hcnt : cnt ≠ 0) (hstart : lineStart ≠ 0) :
    Yields (fun fuel => linePass fuel a cnt (v, lineStart))
      (.inl ⟨copiedDown (Function.update v.data v.last 0) lineStart (r.length + 1), r.length, v.out⟩) := by
  have hstr : StringAt (Function.update v.data v.last 0) lineStart r := by
    refine BytesAt.stringAt (hb.congr (fun x _ hx => ?_)) (by rw [← hlast, Function.update_self])
    exact Function.update_of_ne (by omega) _ _
  have hscan := yields_lineEndFrom (l := r) (u := []) (v := v) (by rwa [List.append_nil]) hr atLineEnd_nil
    (by rwa [List.append_nil])
  rw [← hlast] at hscan
  refine hscan.bind ?_
  simp only [if_pos (show v.data v.last ≠ 10 ∧ cnt ≠ 0 ∧ lineStart ≠ 0 from ⟨hdata, hcnt, hstart⟩)]
  have hlen : v.last - lineStart = r.length := by omega
  rw [hlen]
  exact (yields_strcpy hstr hnul).map _

end Pass

/-! ## The loop -/

section Loop

variable (cnt : Nat) {v : GrepVars} {b p r : List UInt8}

theorem printedLines_line {l : List UInt8} (hl : (10 : UInt8) ∉ l) (t : List UInt8) :
    printedLines name pattern (l ++ 10 :: t) = printedLine name pattern l ++ printedLines name pattern t := by
  rw [printedLines, perLine_sep, perLine_line hl]

/-- The loop comes to the bytes `t` behind the complete lines `p`. -/
theorem exists_breaks_behind (h : GrepFor a name pattern) {t : List UInt8} (hp : CompleteLines 10 p)
    (ht : p ≠ [] → t ≠ []) (hnul : ∀ c ∈ p, c ≠ 0) {v : GrepVars} {lineStart : Nat}
    (hb : BytesAt v.data lineStart (p ++ t)) (hlast : v.last = lineStart + (p ++ t).length) :
    ∃ data, (∀ x, lineStart + p.length ≤ x → data x = v.data x) ∧ ∀ w,
      Breaks (fun fuel => linePass fuel a cnt)
        (⟨data, v.last, v.out ++ printedLines name pattern p⟩, lineStart + p.length) w →
      Breaks (fun fuel => linePass fuel a cnt) (v, lineStart) w := by
  induction hp generalizing v lineStart with
  | nil =>
      refine ⟨v.data, fun _ _ => rfl, fun w hw => ?_⟩
      rw [printedLines, perLine_nil (printedLine_nil h.pattern_ne), List.append_nil] at hw
      exact hw
  | @line l p hl _ ih =>
      have htne : t ≠ [] := ht (by simp)
      rw [List.append_assoc, List.cons_append] at hb hlast
      have hlen := List.length_pos_iff.2 htne
      simp only [List.length_append, List.length_cons] at hlast
      have hpass := yields_linePass_search cnt h hb hl (atLineEnd_cons _)
        (fun c hc => hnul c (List.mem_append_left _ hc)) (by simpa using hlast)
        (Or.inl (bytesAt_cons.1 (bytesAt_append.1 hb).2).1)
      rw [if_neg (by omega)] at hpass
      obtain ⟨data, hdata, hrun⟩ := ih (fun _ => htne)
        (fun c hc => hnul c (List.mem_append_right _ (List.mem_cons_of_mem _ hc)))
        (v := ⟨Function.update v.data (lineStart + l.length) 0, v.last, v.out ++ printedLine name pattern l⟩)
        ((bytesAt_cons.1 (bytesAt_append.1 hb).2).2.congr
          (fun x hx _ => Function.update_of_ne (by omega) _ _))
        (by simp only [List.length_append]; omega)
      refine ⟨data, fun x hx => ?_, fun w hw => Breaks.pass hpass (hrun w ?_)⟩
      · rw [List.length_append, List.length_cons] at hx
        rw [hdata x (by omega)]
        exact Function.update_of_ne (by omega) _ _
      · rw [printedLines_line hl, ← List.append_assoc, List.length_append, List.length_cons] at hw
        have hstart : lineStart + l.length + 1 + p.length = lineStart + (l.length + (p.length + 1)) := by
          omega
        rw [hstart]
        exact hw

/-- From the front of the buffer the loop comes to what is behind the complete lines `p`. -/
theorem exists_breaks_rest (h : GrepFor a name pattern) (hb : BytesAt v.data 0 (p ++ r))
    (hp : AtLineStart 10 p) (hne : p ≠ [] → r ≠ []) (hnul : ∀ c ∈ p ++ r, c ≠ 0)
    (hlast : v.last = (p ++ r).length) :
    ∃ data, BytesAt data p.length r ∧ (∀ x, v.last ≤ x → data x = v.data x) ∧ ∀ w,
      Breaks (fun fuel => linePass fuel a cnt)
        (⟨data, v.last, v.out ++ printedLines name pattern p⟩, p.length) w →
      Breaks (fun fuel => linePass fuel a cnt) (v, 0) w := by
  obtain ⟨data, hdata, hrun⟩ := exists_breaks_behind cnt h hp.completeLines hne
    (fun c hc => hnul c (List.mem_append_left _ hc)) hb (by rw [hlast, Nat.zero_add])
  have hbr := (bytesAt_append.1 hb).2
  rw [Nat.zero_add] at hdata hrun hbr
  refine ⟨data, hbr.congr (fun x hx _ => hdata x hx), fun x hx => hdata x ?_, hrun⟩
  rw [hlast, List.length_append] at hx
  omega

/-- Complete lines are all searched. -/
theorem exists_breaks_complete (h : GrepFor a name pattern) (hb : BytesAt v.data 0 b)
    (hcomplete : AtLineStart 10 b) (hne : b ≠ []) (hnul : ∀ c ∈ b, c ≠ 0) (hlast : v.last = b.length) :
    ∃ data, (∀ x, b.length ≤ x → data x = v.data x) ∧
      Breaks (fun fuel => linePass fuel a cnt) (v, 0) ⟨data, 0, v.out ++ printedLines name pattern b⟩ := by
  -- the last line is `l`, and the lines in front of it are `p`
  obtain ⟨q, rfl⟩ := hcomplete.cases.resolve_left hne
  obtain ⟨p, l, rfl, hp, hl⟩ := exists_last_line (10 : UInt8) q
  rw [List.append_assoc] at hb hlast hnul ⊢
  obtain ⟨data, hbl, hdata, hrun⟩ := exists_breaks_rest cnt h hb hp (fun _ => by simp) hnul hlast
  have hpass := yields_linePass_search cnt
    (v := ⟨data, v.last, v.out ++ printedLines name pattern p⟩) h hbl hl (atLineEnd_cons [])
    (fun c hc => hnul c (List.mem_append_right _ (List.mem_append_left _ hc)))
    (by rw [hlast, List.length_append]) (Or.inl (bytesAt_cons.1 (bytesAt_append.1 hbl).2).1)
  simp only [List.length_append, List.length_singleton] at hlast
  rw [if_pos (by simp only; omega)] at hpass
  refine ⟨Function.update data (p.length + l.length) 0, fun x hx => ?_, hrun _ (Breaks.here ?_)⟩
  · simp only [List.length_append, List.length_singleton] at hx
    rw [Function.update_of_ne (by omega), hdata x (by omega)]
  · rw [printedLines, perLine_append_of_start (printedLine_nil h.pattern_ne) hp, perLine_sep l [],
      perLine_line hl, perLine_nil (printedLine_nil h.pattern_ne), List.append_nil, ← List.append_assoc]
    exact hpass

/-- What is left behind the complete lines `p` is searched too. -/
theorem exists_breaks_search (h : GrepFor a name pattern) (hb : BytesAt v.data 0 (p ++ r))
    (hp : AtLineStart 10 p) (hr : (10 : UInt8) ∉ r) (hne : p ≠ [] → r ≠ []) (hnul : ∀ c ∈ p ++ r, c ≠ 0)
    (hlast : v.last = (p ++ r).length) (hsearch : v.data v.last = 10 ∨ cnt = 0 ∨ p = []) :
    ∃ data, data v.last = 0 ∧ (∀ x, v.last < x → data x = v.data x) ∧
      Breaks (fun fuel => linePass fuel a cnt) (v, 0)
        ⟨data, 0, v.out ++ (printedLines name pattern p ++ printedLine name pattern r)⟩ := by
  obtain ⟨data, hbr, hdata, hrun⟩ := exists_breaks_rest cnt h hb hp hne hnul hlast
  rw [List.length_append] at hlast
  have hsearch' : data (p.length + r.length) = 10 ∨ cnt = 0 ∨ p.length = 0 := by
    rw [← hlast, hdata _ (Nat.le_refl _), List.length_eq_zero_iff]
    exact hsearch
  have hpass := yields_linePass_search cnt (u := [])
    (v := ⟨data, v.last, v.out ++ printedLines name pattern p⟩) h (by rwa [List.append_nil]) hr atLineEnd_nil
    (fun c hc => hnul c (List.mem_append_right _ hc)) (by rwa [List.append_nil]) hsearch'
  rw [if_pos (by simp only; omega), ← hlast] at hpass
  refine ⟨Function.update data v.last 0, Function.update_self _ _ _, fun x hx => ?_, hrun _ (Breaks.here ?_)⟩
  · rw [Function.update_of_ne (Nat.ne_of_gt hx), hdata x (Nat.le_of_lt hx)]
  · rw [← List.append_assoc]
    exact hpass

/-- What is left behind the complete lines `p` is moved to the front. -/
theorem exists_breaks_carry (h : GrepFor a name pattern) (hb : BytesAt v.data 0 (p ++ r))
    (hp : AtLineStart 10 p) (hr : (10 : UInt8) ∉ r) (hpne : p ≠ []) (hrne : r ≠ [])
    (hnul : ∀ c ∈ p ++ r, c ≠ 0) (hlast : v.last = (p ++ r).length) (hdata : v.data v.last ≠ 10)
    (hcnt : cnt ≠ 0) :
    ∃ data, BytesAt data 0 r ∧ data v.last = 0 ∧ (∀ x, v.last < x → data x = v.data x) ∧
      Breaks (fun fuel => linePass fuel a cnt) (v, 0)
        ⟨data, r.length, v.out ++ printedLines name pattern p⟩ := by
  obtain ⟨data, hbr, hdata', hrun⟩ := exists_breaks_rest cnt h hb hp (fun _ => hrne) hnul hlast
  rw [List.length_append] at hlast
  have hplen := List.length_pos_iff.2 hpne
  have hstop : data v.last ≠ 10 := by rwa [hdata' _ (Nat.le_refl _)]
  have hpass := yields_linePass_carry (a := a) (v := ⟨data, v.last, v.out ++ printedLines name pattern p⟩)
    hbr hr (fun c hc => hnul c (List.mem_append_right _ hc)) hlast hstop hcnt (Nat.ne_of_gt hplen)
  have hbehind : ∀ x, r.length < x → copiedDown (Function.update data v.last 0) p.length (r.length + 1) x
      = Function.update data v.last 0 x := fun x hx => if_neg (by omega)
  have hmoved : BytesAt (Function.update data v.last 0) p.length r :=
    hbr.congr (fun x _ hx => Function.update_of_ne (by omega) _ _)
  refine ⟨_, bytesAt_copiedDown hmoved (Nat.le_succ _), ?_, fun x hx => ?_, hrun _ (Breaks.here hpass)⟩
  · rw [hbehind _ (by omega), Function.update_self]
  · rw [hbehind _ (by omega), Function.update_of_ne (Nat.ne_of_gt hx), hdata' x (Nat.le_of_lt hx)]

end Loop

end UnixTerminal
