import UnixTerminal.Proofs.GrepLines

set_option autoImplicit false

/-! # The reads of `grep`

`do_one_file` asks `data[line_end]` whether the last line in the buffer is complete, also where `line_end` is
`last` and the byte is none of the file. With a full buffer that is `data[1024]`, which nothing has been
stored to before the first line that is left over. Unless it happens to be a newline, what was printed and
what is still to be printed is the same text before and behind every read. If it is a newline, the first line
that crosses the end of a full buffer is searched in two parts. -/

namespace UnixTerminal

variable {a : GrepArgs} {name pattern : List UInt8}

/-! ## Files and reads -/

/-- Text without NULs, and with lines that the buffer has room for. -/
structure Searchable (text : List UInt8) : Prop where
  nul : ∀ c ∈ text, c ≠ 0
  short : ∀ l, (10 : UInt8) ∉ l → l <:+: text → l.length < bufsize

theorem Searchable.of_infix {t text : List UInt8} (h : Searchable text) (ht : t <:+: text) : Searchable t :=
  ⟨fun c hc => h.nul c (ht.subset hc), fun l hl hin => h.short l hl (hin.trans ht)⟩

theorem searchable_of_lines {file : List UInt8} (hnul : ∀ c ∈ file, c ≠ 0)
    (hlines : ∀ l ∈ file.splitOn 10, l.length ≤ 1023) : Searchable file := by
  refine ⟨hnul, fun l hl hin => ?_⟩
  obtain ⟨line, hline, hl'⟩ := exists_line_of_infix hl hin
  exact Nat.lt_of_le_of_lt (hl'.length_le.trans (hlines line hline)) (by decide)

/-- The calls deliver the file `fname` in consecutive reads that are short only at its end.
    `Rest fd sys rest`: in `sys`, `rest` is what is not read from `fd` yet. -/
structure Delivers {σ : Type} (calls : GrepCalls σ) (Rest : Nat → σ → List UInt8 → Prop)
    (fname : Nat → UInt8) (sys : σ) (file : List UInt8) : Prop where
  opens : ∃ fd sys', calls.ece391Open fname sys = (some fd, sys') ∧ Rest fd sys' file
  reads : ∀ fd sys rest n, Rest fd sys rest →
    ∃ sys', calls.ece391Read fd n sys = (some (rest.take n), sys') ∧ Rest fd sys' (rest.drop n)
  closes : ∀ fd sys, Rest fd sys [] → ∃ sys', calls.ece391Close fd sys = (true, sys')

/-- The buffer holds `c`, the front of a line. -/
structure Carried (v : GrepVars) (c : List UInt8) : Prop where
  bytes : BytesAt v.data 0 c
  line : (10 : UInt8) ∉ c
  last : v.last = c.length

theorem Carried.empty (data : Nat → UInt8) (out : List UInt8) : Carried ⟨data, 0, out⟩ [] :=
  ⟨bytesAt_nil, by simp, rfl⟩

theorem GrepVars.store_of_le {v : GrepVars} {bytes : List UInt8} {x : Nat} (h : v.last + bytes.length ≤ x) :
    v.store bytes x = v.data x := by
  rw [GrepVars.store, if_pos (by omega), List.getD_eq_default _ _ (by omega)]

/-- A read appends to what the buffer holds. -/
theorem Carried.bytesAt_store {v : GrepVars} {c : List UInt8} (h : Carried v c) (bytes : List UInt8) :
    BytesAt (v.store bytes) 0 (c ++ bytes) := by
  refine bytesAt_append.2 ⟨h.bytes.congr (fun x _ hx => ?_), fun j hj => ?_⟩
  · rw [GrepVars.store, if_neg (by rw [h.last]; omega)]
  · rw [Nat.zero_add, GrepVars.store, if_pos (by rw [h.last]; omega), h.last, Nat.add_sub_cancel_left,
      List.getD_eq_getElem _ _ hj]

/-- The buffer holds `c`, the read adds `chunk` to it and leaves `rest'` of `rest`. In the buffer are the
    complete lines `p`, and `r` behind them. -/
structure ReadCut (v : GrepVars) (c rest chunk rest' p r : List UInt8) : Prop where
  carried : Carried v c
  text : Searchable (c ++ rest)
  read : chunk = rest.take (bufsize - v.last)
  left : rest' = rest.drop (bufsize - v.last)
  ne : chunk ≠ []
  cut : c ++ chunk = p ++ r
  start : AtLineStart 10 p
  line : (10 : UInt8) ∉ r

theorem exists_readCut {v : GrepVars} {c rest : List UInt8} (hc : Carried v c)
    (htext : Searchable (c ++ rest)) (hne : rest ≠ []) : ∃ chunk rest' p r, ReadCut v c rest chunk rest' p r := by
  have hroom : v.last < bufsize := hc.last ▸ htext.short c hc.line (List.prefix_append c rest).isInfix
  obtain ⟨p, r, hcut, hp, hr⟩ := exists_last_line (10 : UInt8) (c ++ rest.take (bufsize - v.last))
  refine ⟨_, _, p, r, hc, htext, rfl, rfl, ?_, hcut, hp, hr⟩
  rw [Ne, List.take_eq_nil_iff, not_or]
  exact ⟨by omega, hne⟩

namespace ReadCut

variable {v : GrepVars} {c rest chunk rest' p r : List UInt8} (h : ReadCut v c rest chunk rest' p r)
include h

theorem rest_eq : rest = chunk ++ rest' := by rw [h.read, h.left, List.take_append_drop]

theorem text_eq : c ++ rest = p ++ (r ++ rest') := by
  rw [h.rest_eq, ← List.append_assoc, h.cut, List.append_assoc]

theorem nul : ∀ x ∈ p ++ r, x ≠ 0 := fun x hx => h.text.nul x (by
  rw [h.text_eq, ← List.append_assoc]
  exact List.mem_append_left _ hx)

theorem last : v.last + chunk.length = (p ++ r).length := by
  rw [← h.cut, List.length_append, h.carried.last]

theorem length_chunk : chunk.length = min (bufsize - v.last) rest.length := by rw [h.read, List.length_take]

theorem length_le : (p ++ r).length ≤ bufsize := by
  have hlast := h.last
  have hlen := h.length_chunk
  have hpos := List.length_pos_iff.2 h.ne
  omega

theorem bytes : BytesAt (v.store chunk) 0 (p ++ r) := h.cut ▸ h.carried.bytesAt_store chunk

theorem shorter : rest'.length < rest.length := by
  have hpos := List.length_pos_iff.2 h.ne
  rw [h.rest_eq, List.length_append]
  omega

/-- What comes behind the complete lines is searchable. -/
theorem searchable : Searchable (r ++ rest') :=
  h.text.of_infix (h.text_eq ▸ (List.suffix_append p _).isInfix)

theorem searchable_left : Searchable rest' := h.searchable.of_infix (List.suffix_append r rest').isInfix

/-- The file ends where the buffer is not full. -/
theorem left_eq_nil (hshort : (p ++ r).length < bufsize) : rest' = [] := by
  have hlast := h.last
  have hlen := h.length_chunk
  rw [h.left, List.drop_eq_nil_iff]
  omega

theorem left_eq_nil_of_few (hfew : (c ++ rest).length < bufsize) : rest' = [] := by
  refine h.left_eq_nil ?_
  rw [h.text_eq, ← List.append_assoc, List.length_append] at hfew
  omega

/-- A rest that is searched is the last line, where the byte behind a full buffer is no newline. -/
theorem left_eq_nil_of_search (hdata : v.data bufsize ≠ 10 ∨ (c ++ rest).length < bufsize)
    (hsearch : v.store chunk (p ++ r).length = 10 ∨ p = []) : rest' = [] := by
  rcases hdata with hstop | hfew
  · refine h.left_eq_nil (Nat.lt_of_le_of_ne h.length_le (fun hfull => ?_))
    rcases hsearch with hnewline | rfl
    · rw [hfull, GrepVars.store_of_le (by rw [h.last, hfull])] at hnewline
      exact hstop hnewline
    · -- a line as long as the buffer
      rw [List.nil_append] at hfull
      have hshort := h.searchable.short r h.line (List.prefix_append r rest').isInfix
      omega
  · exact h.left_eq_nil_of_few hfew

/-- The byte behind the buffer, once the byte behind the text in it is 0. -/
theorem data_bufsize {data : Nat → UInt8} (hzero : data (p ++ r).length = 0)
    (hbehind : ∀ x, (p ++ r).length < x → data x = v.store chunk x) :
    data bufsize = if (p ++ r).length = bufsize then 0 else v.data bufsize := by
  have hle := h.length_le
  split
  next heq => rw [← heq, hzero]
  next hlt => rw [hbehind _ (by omega), GrepVars.store_of_le (by rw [h.last]; omega)]

end ReadCut

/-! ## One read -/

section Reads

variable {σ : Type} {calls : GrepCalls σ} {Rest : Nat → σ → List UInt8 → Prop} {fname : Nat → UInt8}
  {sys₀ sys : σ} {file rest rest' chunk c p r : List UInt8} {fd : Nat} {v w : GrepVars}

/-- **The end of the file.** What is left in the buffer is the last line. -/
theorem exists_breaks_end (h : GrepFor a name pattern) (hd : Delivers calls Rest fname sys₀ file)
    (hrest : Rest fd sys []) (hc : Carried v c) (hnul : ∀ x ∈ c, x ≠ 0) :
    ∃ sys', Breaks (fun fuel => readPass fuel a calls fd) (v, sys)
      ⟨0, v.out ++ printedLines name pattern c, sys'⟩ := by
  obtain ⟨sys₁, hread, hrest₁⟩ := hd.reads fd sys [] (bufsize - v.last) hrest
  rw [List.take_nil] at hread
  rw [List.drop_nil] at hrest₁
  obtain ⟨sys', hclose⟩ := hd.closes fd sys₁ hrest₁
  have hb := hc.bytesAt_store []
  rw [List.append_nil] at hb
  obtain ⟨data, -, -, hrun⟩ := exists_breaks_search 0 (v := ⟨v.store [], v.last + 0, v.out⟩) (p := []) h hb
    atLineStart_nil hc.line (fun hn => absurd rfl hn) hnul hc.last (Or.inr (Or.inl rfl))
  refine ⟨sys', Breaks.here ?_⟩
  have hmap := hrun.yields.map (fun v => (.inl (closeFile calls fd v.out sys₁) : GrepEnd σ ⊕ GrepVars × σ))
  simp only [readPass, hread, List.length_nil, if_true]
  rw [closeFile, hclose] at hmap
  have hline : printedLines name pattern c = printedLine name pattern c := perLine_line hc.line
  have hnone : printedLines name pattern [] = [] := perLine_nil (printedLine_nil h.pattern_ne)
  rw [hnone, List.nil_append, ← hline] at hmap
  exact hmap

/-! ### The three ways in which a read goes on -/

section Pass

variable (h : GrepFor a name pattern) (hd : Delivers calls Rest fname sys₀ file) (hrest : Rest fd sys rest)
  (hcut : ReadCut v c rest chunk rest' p r)
include hd hrest hcut

theorem exists_yields_readPass
    (hw : Breaks (fun fuel => linePass fuel a chunk.length)
      (⟨v.store chunk, v.last + chunk.length, v.out⟩, 0) w) :
    ∃ sys', Rest fd sys' rest' ∧
      Yields (fun fuel => readPass fuel a calls fd (v, sys)) (.inr (w, sys')) := by
  obtain ⟨sys', hread, hrest'⟩ := hd.reads fd sys rest (bufsize - v.last) hrest
  rw [← hcut.left] at hrest'
  rw [← hcut.read] at hread
  refine ⟨sys', hrest', ?_⟩
  have hlen : chunk.length ≠ 0 := mt List.length_eq_zero_iff.1 hcut.ne
  have hmap := hw.yields.map (fun v => if chunk.length = 0 then
    (.inl (closeFile calls fd v.out sys') : GrepEnd σ ⊕ GrepVars × σ) else .inr (v, sys'))
  rw [if_neg hlen] at hmap
  simp only [readPass, hread]
  exact hmap

include h

/-- The buffer ends with a newline. -/
theorem exists_pass_complete (hr : r = []) :
    ∃ w sys', Yields (fun fuel => readPass fuel a calls fd (v, sys)) (.inr (w, sys')) ∧ Rest fd sys' rest' ∧
      Carried w [] ∧ w.out = v.out ++ printedLines name pattern p ∧ w.data bufsize = v.data bufsize := by
  subst hr
  have hbytes := hcut.bytes
  have hnul := hcut.nul
  have hlast := hcut.last
  have hle := hcut.length_le
  rw [List.append_nil] at hbytes hnul hlast hle
  have hne : p ≠ [] := by
    have hpos := List.length_pos_iff.2 hcut.ne
    exact List.length_pos_iff.1 (by omega)
  obtain ⟨data, hdata, hrun⟩ := exists_breaks_complete chunk.length
    (v := ⟨v.store chunk, v.last + chunk.length, v.out⟩) h hbytes hcut.start hne hnul hlast
  obtain ⟨sys', hrest', hpass⟩ := exists_yields_readPass hd hrest hcut hrun
  refine ⟨_, sys', hpass, hrest', Carried.empty _ _, rfl, ?_⟩
  simp only
  rw [hdata _ hle]
  exact GrepVars.store_of_le (by omega)

/-- What is left behind the last newline is searched. -/
theorem exists_pass_search (hr : r ≠ []) (hsearch : v.store chunk (p ++ r).length = 10 ∨ p = []) :
    ∃ w sys', Yields (fun fuel => readPass fuel a calls fd (v, sys)) (.inr (w, sys')) ∧ Rest fd sys' rest' ∧
      Carried w [] ∧ w.out = v.out ++ (printedLines name pattern p ++ printedLine name pattern r) ∧
      w.data bufsize = if (p ++ r).length = bufsize then 0 else v.data bufsize := by
  obtain ⟨data, hzero, hdata, hrun⟩ := exists_breaks_search chunk.length
    (v := ⟨v.store chunk, v.last + chunk.length, v.out⟩) h hcut.bytes hcut.start hcut.line (fun _ => hr)
    hcut.nul hcut.last (by rw [hcut.last]; tauto)
  obtain ⟨sys', hrest', hpass⟩ := exists_yields_readPass hd hrest hcut hrun
  simp only [hcut.last] at hzero hdata
  exact ⟨_, sys', hpass, hrest', Carried.empty _ _, rfl, hcut.data_bufsize hzero hdata⟩

/-- What is left behind the last newline is moved to the front. -/
theorem exists_pass_carry (hp : p ≠ []) (hr : r ≠ []) (hstop : v.store chunk (p ++ r).length ≠ 10) :
    ∃ w sys', Yields (fun fuel => readPass fuel a calls fd (v, sys)) (.inr (w, sys')) ∧ Rest fd sys' rest' ∧
      Carried w r ∧ w.out = v.out ++ printedLines name pattern p ∧
      w.data bufsize = if (p ++ r).length = bufsize then 0 else v.data bufsize := by
  have hcnt : chunk.length ≠ 0 := mt List.length_eq_zero_iff.1 hcut.ne
  obtain ⟨data, hmoved, hzero, hdata, hrun⟩ := exists_breaks_carry chunk.length
    (v := ⟨v.store chunk, v.last + chunk.length, v.out⟩) h hcut.bytes hcut.start hcut.line hp hr hcut.nul
    hcut.last (by rw [hcut.last]; exact hstop) hcnt
  obtain ⟨sys', hrest', hpass⟩ := exists_yields_readPass hd hrest hcut hrun
  simp only [hcut.last] at hzero hdata
  exact ⟨_, sys', hpass, hrest', ⟨hmoved, hcut.line, rfl⟩, rfl, hcut.data_bufsize hzero hdata⟩

/-- **One read.** Where the byte behind a full buffer is no newline, and where the buffer does not get full,
    what is printed and what is to be printed for the rest of the file is the same text behind it. -/
theorem exists_pass_kept (hdata : v.data bufsize ≠ 10 ∨ (c ++ rest).length < bufsize) :
    ∃ w c' sys', Yields (fun fuel => readPass fuel a calls fd (v, sys)) (.inr (w, sys')) ∧
      Rest fd sys' rest' ∧ Carried w c' ∧ Searchable (c' ++ rest') ∧
      w.out ++ printedLines name pattern (c' ++ rest') = v.out ++ printedLines name pattern (c ++ rest) ∧
      (w.data bufsize = 0 ∨ w.data bufsize = v.data bufsize) := by
  have hnil : printedLine name pattern [] = [] := printedLine_nil h.pattern_ne
  have hprinted : printedLines name pattern (c ++ rest)
      = printedLines name pattern p ++ printedLines name pattern (r ++ rest') := by
    rw [hcut.text_eq]
    exact perLine_append_of_start hnil hcut.start _
  by_cases hr : r = []
  · -- complete lines
    obtain ⟨w, sys', hpass, hrest', hw, hout, hkept⟩ := exists_pass_complete h hd hrest hcut hr
    refine ⟨w, [], sys', hpass, hrest', hw, hcut.searchable_left, ?_, Or.inr hkept⟩
    rw [hout, hprinted, hr, List.append_assoc]
  by_cases hcarry : v.store chunk (p ++ r).length ≠ 10 ∧ p ≠ []
  · -- the rest is carried over
    obtain ⟨w, sys', hpass, hrest', hw, hout, hzero⟩ :=
      exists_pass_carry h hd hrest hcut hcarry.2 hr hcarry.1
    refine ⟨w, r, sys', hpass, hrest', hw, hcut.searchable, ?_, ?_⟩
    · rw [hout, hprinted, List.append_assoc]
    · rw [hzero]
      exact ite_eq_or_eq _ _ _
  · -- the rest is searched: it is the last line
    have hsearch : v.store chunk (p ++ r).length = 10 ∨ p = [] := by tauto
    have hend : rest' = [] := hcut.left_eq_nil_of_search hdata hsearch
    obtain ⟨w, sys', hpass, hrest', hw, hout, hzero⟩ := exists_pass_search h hd hrest hcut hr hsearch
    refine ⟨w, [], sys', hpass, hrest', hw, hcut.searchable_left, ?_, ?_⟩
    · have hnone : printedLines name pattern [] = [] := perLine_nil hnil
      have hline : printedLines name pattern r = printedLine name pattern r := perLine_line hcut.line
      rw [hout, hprinted, hend, List.append_nil, List.append_nil, hnone, hline, List.append_nil]
    · rw [hzero]
      exact ite_eq_or_eq _ _ _

end Pass

/-! ### All reads -/

variable (h : GrepFor a name pattern) (hd : Delivers calls Rest fname sys₀ file)
include h hd

/-- The rest of the file, read by read. -/
theorem exists_breaks_kept (hrest : Rest fd sys rest) (hc : Carried v c) (htext : Searchable (c ++ rest))
    (hdata : v.data bufsize ≠ 10 ∨ (c ++ rest).length < bufsize) :
    ∃ sys', Breaks (fun fuel => readPass fuel a calls fd) (v, sys)
      ⟨0, v.out ++ printedLines name pattern (c ++ rest), sys'⟩ := by
  induction hn : rest.length using Nat.strong_induction_on generalizing rest c v sys with
  | _ n ih =>
      subst hn
      by_cases hne : rest = []
      · subst hne
        rw [List.append_nil] at htext ⊢
        exact exists_breaks_end h hd hrest hc htext.nul
      obtain ⟨chunk, rest', p, r, hcut⟩ := exists_readCut hc htext hne
      obtain ⟨w, c', sys₁, hpass, hrest', hw, htext', hkept, hdata'⟩ :=
        exists_pass_kept h hd hrest hcut hdata
      have hnext : w.data bufsize ≠ 10 ∨ (c' ++ rest').length < bufsize := by
        rcases hdata' with hzero | hsame
        · exact Or.inl (by simp [hzero])
        · rcases hdata with hstop | hfew
          · exact Or.inl (hsame ▸ hstop)
          · -- the file is read, and what is carried over is short
            obtain rfl : rest' = [] := hcut.left_eq_nil_of_few hfew
            rw [List.append_nil] at htext' ⊢
            exact Or.inr (htext'.short c' hw.line (List.infix_refl c'))
      obtain ⟨sys', hrun⟩ := ih _ hcut.shorter hrest' hw htext' hnext rfl
      rw [hkept] at hrun
      exact ⟨sys', Breaks.pass hpass hrun⟩

end Reads

/-! ## Torn lines -/

section Torn

variable {p r : List UInt8}

/-- The end of a full buffer cuts a line with the pattern in it in two, and the ends of the full buffers in
    front of it cut none. -/
inductive Torn (pattern : List UInt8) : List UInt8 → Prop
  | here {p l₁ l₂ t : List UInt8} : (p ++ l₁).length = bufsize → AtLineStart 10 p → AtLineEnd 10 t →
      (10 : UInt8) ∉ l₁ → (10 : UInt8) ∉ l₂ → l₁ ≠ [] → l₂ ≠ [] → pattern <:+: l₁ ++ l₂ →
      Torn pattern (p ++ l₁ ++ (l₂ ++ t))
  | later {b t : List UInt8} : b.length = bufsize → AtLineStart 10 b → Torn pattern t → Torn pattern (b ++ t)

theorem Torn.bufsize_lt_length {text : List UInt8} (h : Torn pattern text) : bufsize < text.length := by
  induction h with
  | here hlen _ _ _ _ _ hl₂ _ =>
      have hpos := List.length_pos_iff.2 hl₂
      rw [List.length_append, hlen, List.length_append]
      omega
  | later hlen _ _ ih =>
      rw [List.length_append]
      omega

theorem torn_append_iff_of_start {b t : List UInt8} (hlen : b.length = bufsize) (hb : AtLineStart 10 b) :
    Torn pattern (b ++ t) ↔ Torn pattern t := by
  refine ⟨fun h => ?_, .later hlen hb⟩
  generalize htext : b ++ t = text at h
  cases h with
  | @here p l₁ l₂ u hlen' hp _ hl₁ _ hne₁ _ _ =>
      obtain ⟨rfl, -⟩ := List.append_inj htext (hlen.trans hlen'.symm)
      exact absurd (hb.eq_nil_of_append hl₁) hne₁
  | later hlen' _ ht =>
      obtain ⟨-, rfl⟩ := List.append_inj htext (hlen.trans hlen'.symm)
      exact ht

theorem torn_append_iff_of_rest {l t : List UInt8} (hlen : (p ++ r).length = bufsize) (hp : AtLineStart 10 p)
    (hr : (10 : UInt8) ∉ r) (hrne : r ≠ []) (hl : (10 : UInt8) ∉ l) (ht : AtLineEnd 10 t) :
    Torn pattern (p ++ r ++ (l ++ t)) ↔ l ≠ [] ∧ pattern <:+: r ++ l := by
  refine ⟨fun h => ?_, fun ⟨hlne, hin⟩ => .here hlen hp ht hr hl hrne hlne hin⟩
  generalize htext : p ++ r ++ (l ++ t) = text at h
  cases h with
  | @here p' l₁ l₂ u hlen' hp' hu hl₁ hl₂ hne₁ hne₂ hin =>
      obtain ⟨hfront, hback⟩ := List.append_inj htext (hlen.trans hlen'.symm)
      obtain ⟨rfl, rfl⟩ := last_line_unique hp hp' hr hl₁ hfront
      obtain ⟨rfl, rfl⟩ := first_line_unique hl hl₂ ht hu hback
      exact ⟨hne₂, hin⟩
  | later hlen' hb _ =>
      obtain ⟨rfl, -⟩ := List.append_inj htext (hlen.trans hlen'.symm)
      exact absurd (hb.eq_nil_of_append hr) hrne

theorem length_printedLine (line : List UInt8) :
    (printedLine name pattern line).length =
      if pattern <:+: line then name.length + line.length + 2 else 0 := by
  rw [printedLine]
  split
  · simp only [List.length_append, List.length_cons, List.length_nil]
    omega
  · rfl

/-- Two parts of a line are searched like the whole line, unless the pattern is in it. -/
theorem printedLine_append_iff {l : List UInt8} (hpattern : pattern ≠ []) (hr : r ≠ []) :
    printedLine name pattern r ++ printedLine name pattern l = printedLine name pattern (r ++ l) ↔
      ¬(l ≠ [] ∧ pattern <:+: r ++ l) := by
  by_cases hl : l = []
  · subst hl
    simp [printedLine_nil hpattern]
  by_cases hin : pattern <:+: r ++ l
  · -- the lengths are different, whatever the parts have of the pattern
    refine ⟨fun heq => ?_, fun hno => absurd ⟨hl, hin⟩ hno⟩
    have hrpos := List.length_pos_iff.2 hr
    have hlpos := List.length_pos_iff.2 hl
    have hlen := congrArg List.length heq
    rw [List.length_append, length_printedLine, length_printedLine, length_printedLine, if_pos hin,
      List.length_append] at hlen
    split at hlen <;> split at hlen <;> omega
  · have hnr : ¬pattern <:+: r := fun hinr => hin (hinr.trans (List.prefix_append r l).isInfix)
    have hnl : ¬pattern <:+: l := fun hinl => hin (hinl.trans (List.suffix_append r l).isInfix)
    simp [printedLine, hin, hnr, hnl]

/-- Text with a line cut in two, against the whole text. -/
theorem printedLines_cut_iff {l u : List UInt8} (hpattern : pattern ≠ []) (hp : AtLineStart 10 p)
    (hr : (10 : UInt8) ∉ r) (hrne : r ≠ []) (hl : (10 : UInt8) ∉ l) (hu : AtLineEnd 10 u) :
    printedLines name pattern p ++ printedLine name pattern r ++ printedLines name pattern (l ++ u)
        = printedLines name pattern (p ++ r ++ (l ++ u)) ↔
      ¬(l ≠ [] ∧ pattern <:+: r ++ l) := by
  have hnil : printedLine name pattern [] = [] := printedLine_nil hpattern
  have hparts : printedLines name pattern (l ++ u)
      = printedLine name pattern l ++ printedLines name pattern u := by
    rw [printedLines, perLine_append_of_end hnil hu, perLine_line hl]
  have hrl : (10 : UInt8) ∉ r ++ l := by simp [hr, hl]
  have hwhole : printedLines name pattern (p ++ r ++ (l ++ u))
      = printedLines name pattern p
        ++ (printedLine name pattern (r ++ l) ++ printedLines name pattern u) := by
    rw [List.append_assoc, ← List.append_assoc r, printedLines, perLine_append_of_start hnil hp,
      perLine_append_of_end hnil hu, perLine_line hrl]
  rw [hparts, hwhole, List.append_assoc, List.append_right_inj, ← List.append_assoc, List.append_left_inj]
  exact printedLine_append_iff hpattern hrne

end Torn

/-! ## The output -/

section Output

variable {σ : Type} {calls : GrepCalls σ} {Rest : Nat → σ → List UInt8 → Prop} {s fname : Nat → UInt8}
  {sys₀ sys : σ} {file rest : List UInt8} {fd : Nat} {v : GrepVars}

/-- A newline behind the full buffer. -/
theorem exists_breaks_newline (h : GrepFor a name pattern) (hd : Delivers calls Rest fname sys₀ file)
    (hrest : Rest fd sys rest) (hc : Carried v []) (htext : Searchable rest) (hdata : v.data bufsize = 10) :
    ∃ out sys', Breaks (fun fuel => readPass fuel a calls fd) (v, sys) ⟨0, v.out ++ out, sys'⟩ ∧
      (out = printedLines name pattern rest ↔ ¬Torn pattern rest) := by
  induction hn : rest.length using Nat.strong_induction_on generalizing rest v sys with
  | _ n ih =>
      subst hn
      have hlast : v.last = 0 := hc.last
      by_cases hfew : rest.length < bufsize
      · -- the buffer does not get full
        obtain ⟨sys', hrun⟩ := exists_breaks_kept (c := []) h hd hrest hc htext (Or.inr hfew)
        have htorn : ¬Torn pattern rest := fun ht => absurd ht.bufsize_lt_length (by omega)
        exact ⟨_, sys', hrun, iff_of_true rfl htorn⟩
      have hne : rest ≠ [] := List.length_pos_iff.1 (Nat.lt_of_lt_of_le (by decide) (Nat.le_of_not_lt hfew))
      obtain ⟨chunk, rest', p, r, hcut⟩ := exists_readCut hc htext hne
      have hchunk : chunk = p ++ r := hcut.cut
      have hlen : (p ++ r).length = bufsize := by
        rw [← hchunk, hcut.length_chunk, hlast]
        omega
      by_cases hr : r = []
      · -- complete lines, and the same again with the rest of the file
        obtain ⟨w, sys₁, hpass, hrest', hw, hout, hdata'⟩ := exists_pass_complete h hd hrest hcut hr
        obtain ⟨out, sys', hrun, hiff⟩ :=
          ih _ hcut.shorter hrest' hw hcut.searchable_left (hdata'.trans hdata) rfl
        refine ⟨printedLines name pattern p ++ out, sys', Breaks.pass hpass ?_, ?_⟩
        · rw [← List.append_assoc, ← hout]
          exact hrun
        · rw [hr, List.append_nil] at hchunk hlen
          have hprinted : printedLines name pattern (p ++ rest')
              = printedLines name pattern p ++ printedLines name pattern rest' :=
            perLine_append_of_start (printedLine_nil h.pattern_ne) hcut.start rest'
          rw [hcut.rest_eq, hchunk, hprinted, List.append_right_inj, hiff,
            torn_append_iff_of_start hlen hcut.start]
      · -- the last line is cut in two
        have hstop : v.store chunk (p ++ r).length = 10 := by
          rw [hlen, GrepVars.store_of_le (by rw [hcut.last, hlen])]
          exact hdata
        obtain ⟨w, sys₁, hpass, hrest', hw, hout, hzero⟩ :=
          exists_pass_search h hd hrest hcut hr (Or.inl hstop)
        rw [if_pos hlen] at hzero
        obtain ⟨sys', hrun⟩ :=
          exists_breaks_kept (c := []) h hd hrest' hw hcut.searchable_left (Or.inl (by simp [hzero]))
        obtain ⟨l, u, hlu, hl, hu⟩ := exists_first_line (10 : UInt8) rest'
        refine ⟨printedLines name pattern p ++ printedLine name pattern r ++ printedLines name pattern rest',
          sys', Breaks.pass hpass ?_, ?_⟩
        · rw [← List.append_assoc, ← hout]
          exact hrun
        · rw [hcut.rest_eq, hchunk, hlu, torn_append_iff_of_rest hlen hcut.start hcut.line hr hl hu]
          exact printedLines_cut_iff h.pattern_ne hcut.start hcut.line hr hl hu

/-- What `do_one_file` prints. -/
theorem exists_yields_doOneFile (data : Nat → UInt8) (hname : StringAt fname 0 name)
    (hname_nul : ∀ c ∈ name, c ≠ 0) (hpattern : StringAt s 0 pattern) (hpattern_nul : ∀ c ∈ pattern, c ≠ 0)
    (hpattern_ne : pattern ≠ []) (htext : Searchable file) (hd : Delivers calls Rest fname sys file) :
    ∃ e, Yields (doOneFile calls data s fname sys) e ∧ e.value = 0 ∧
      (e.out = printedLines name pattern file ↔ ¬(data 1024 = 10 ∧ Torn pattern file)) := by
  have h : GrepFor ⟨s, pattern.length, fname⟩ name pattern :=
    ⟨hname, hname_nul, hpattern, hpattern_nul, hpattern_ne, rfl⟩
  obtain ⟨fd, sys₁, hopen, hrest⟩ := hd.opens
  have hreads : ∃ out sys', Breaks (fun fuel => readPass fuel ⟨s, pattern.length, fname⟩ calls fd)
      (⟨data, 0, []⟩, sys₁) ⟨0, out, sys'⟩ ∧
      (out = printedLines name pattern file ↔ ¬(data 1024 = 10 ∧ Torn pattern file)) := by
    by_cases hdata : data 1024 = 10
    · obtain ⟨out, sys', hrun, hiff⟩ := exists_breaks_newline h hd hrest (Carried.empty data []) htext hdata
      exact ⟨out, sys', hrun, by simpa [hdata] using hiff⟩
    · obtain ⟨sys', hrun⟩ :=
        exists_breaks_kept (c := []) h hd hrest (Carried.empty data []) htext (Or.inl hdata)
      exact ⟨_, sys', hrun, by simp [hdata]⟩
  obtain ⟨out, sys', hrun, hiff⟩ := hreads
  refine ⟨⟨0, out, sys'⟩, (yields_strlen hpattern hpattern_nul).bind ?_, rfl, hiff⟩
  simp only [hopen]
  exact hrun.yields

end Output

/-! ## One file -/

/-- A system whose state is what is left of its one file. -/
def oneFileCalls : GrepCalls (List UInt8) where
  ece391Open := fun _ rest => (some 2, rest)
  ece391Read := fun _ n rest => (some (rest.take n), rest.drop n)
  ece391Close := fun _ rest => (true, rest)

theorem delivers_oneFileCalls (fname : Nat → UInt8) (file : List UInt8) :
    Delivers oneFileCalls (fun _ sys rest => sys = rest) fname file file where
  opens := ⟨2, file, rfl, rfl⟩
  reads := by
    rintro fd sys rest n rfl
    exact ⟨sys.drop n, rfl, rfl⟩
  closes := by
    rintro fd sys rfl
    exact ⟨[], rfl⟩

/-- The string `t`, and NULs behind it. -/
def stringMem (t : List UInt8) : Nat → UInt8 := fun i => t.getD i 0

theorem stringAt_stringMem (t : List UInt8) : StringAt (stringMem t) 0 t := by
  refine ⟨fun j hj => ?_, ?_⟩
  · rw [Nat.zero_add, stringMem, List.getD_eq_getElem _ _ hj]
  · rw [Nat.zero_add, stringMem, List.getD_eq_default _ _ (Nat.le_refl _)]

/-- 1000 characters and a newline, a line without `b` that crosses the end of the buffer, and the line `b`. -/
def cutFile : List UInt8 := List.replicate 1000 97 ++ [10] ++ List.replicate 23 97 ++ ([99] ++ [10, 98, 10])

/-- 1000 characters and a newline, and a line of 23 characters and `b` that crosses the end of the buffer. -/
def tornFile : List UInt8 := List.replicate 1000 97 ++ [10] ++ List.replicate 23 97 ++ ([98] ++ [10])

end UnixTerminal
