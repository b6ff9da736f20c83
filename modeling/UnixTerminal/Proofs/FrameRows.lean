import UnixTerminal.Library.Lines
import UnixTerminal.Programs.Frames

set_option autoImplicit false

/-! # The two frames, read side by side

`add_frames` reads a line of each file at once, a character of each at a time, and goes on with blanks where
one line is shorter, or one file. The blinks that it adds are therefore those of a grid of pairs of characters:
`frameRows` is this grid, and `frameBlinks` the blinks in the order in which they are added. -/

namespace UnixTerminal

/-! ## The grid -/

/-- The characters of two lines, side by side. -/
def pairLine (l0 l1 : List UInt8) : List (UInt8 × UInt8) :=
  List.zipWithAll (fun c0 c1 => (c0.getD 32, c1.getD 32)) l0 l1

/-- The lines of two files, side by side. -/
def pairLines (lines0 lines1 : List (List UInt8)) : List (List (UInt8 × UInt8)) :=
  List.zipWithAll (fun l0 l1 => pairLine (l0.getD []) (l1.getD [])) lines0 lines1

/-- The grid of two files. -/
def frameRows (file0 file1 : List UInt8) : List (List (UInt8 × UInt8)) :=
  pairLines (file0.splitOn 10) (file1.splitOn 10)

/-- The blinks of a row, from column `col` on: one where a character is not blank. -/
def rowBlinks (user : BlinkStruct) (row : Nat) : Nat → List (UInt8 × UInt8) → List BlinkStruct
  | _, [] => []
  | col, (c0, c1) :: cells =>
      if c0 ≠ 32 ∨ c1 ≠ 32 then frameBlink user row col c0 c1 :: rowBlinks user row (col + 1) cells
      else rowBlinks user row (col + 1) cells

/-- The blinks of a grid, from row `row` on. -/
def gridBlinks (user : BlinkStruct) : Nat → List (List (UInt8 × UInt8)) → List BlinkStruct
  | _, [] => []
  | row, cells :: rows => rowBlinks user row 0 cells ++ gridBlinks user (row + 1) rows

/-- The blinks that `add_frames` adds. -/
def frameBlinks (user : BlinkStruct) (file0 file1 : List UInt8) : List BlinkStruct :=
  gridBlinks (frameUser user) 0 (frameRows file0 file1)

/-- The blinks, added one after the other. -/
def addBlinks (f : Fish) (blinks : List BlinkStruct) : Fish := blinks.foldl (fun f b => (f.mp1IoctlAdd b).2) f

theorem pairLine_cons {l0 l1 : List UInt8} (h : l0 ≠ [] ∨ l1 ≠ []) :
    pairLine l0 l1 = (l0.headD 32, l1.headD 32) :: pairLine l0.tail l1.tail := by
  cases l0 with
  | nil =>
      cases l1 with
      | nil => simp at h
      | cons c1 l1 => simp [pairLine]
  | cons c0 l0 =>
      cases l1 with
      | nil => simp [pairLine]
      | cons c1 l1 => simp [pairLine]

/-- The character that is read where a line is over is shown as the blank it is in the grid. -/
theorem shownChar_headD {l : List UInt8} : shownChar (l.headD 10) = shownChar (l.headD 32) := by
  cases l <;> rfl

theorem headD_blank_iff {l : List UInt8} (hl : 10 ∉ l) :
    l.headD 10 ≠ 32 ∧ l.headD 10 ≠ 10 ↔ l.headD 32 ≠ 32 := by
  cases l with
  | nil => simp
  | cons c l =>
      have hc : c ≠ 10 := fun heq => hl (heq ▸ List.mem_cons_self)
      simp [hc]

/-! ## The calls -/

/-- `Open files sys`: in `sys`, `files fd` is what is not read yet of an open descriptor. Reads are short only
    at the end of a file. -/
structure Streams {σ : Type} (calls : GrepCalls σ) (Open : (Nat → Option (List UInt8)) → σ → Prop) : Prop where
  reads : ∀ {files sys fd text} (n : Nat), Open files sys → files fd = some text →
    ∃ sys', calls.ece391Read fd n sys = (some (text.take n), sys') ∧
      Open (Function.update files fd (some (text.drop n))) sys'
  closes : ∀ {files sys} (fd : Nat), Open files sys →
    Open (Function.update files fd none) (calls.ece391Close fd sys).2

section Reading

variable {σ : Type} {calls : GrepCalls σ} {Open : (Nat → Option (List UInt8)) → σ → Prop}
  {files : Nat → Option (List UInt8)} {r : FrameReader} {sys : σ} {l : List UInt8} {u : Option (List UInt8)}

/-- What follows a line: the end of the file, or a newline and other lines. -/
def behindLine : Option (List UInt8) → List UInt8
  | none => []
  | some rest => 10 :: rest

/-- `l` is left of the line; once it is read, so is the newline or the end of the file behind it. -/
inductive OnLine (files : Nat → Option (List UInt8)) (r : FrameReader) :
    List UInt8 → Option (List UInt8) → Prop
  | reading {l : List UInt8} {u : Option (List UInt8)} :
      r.c ≠ 10 → r.eof = false → 10 ∉ l → files r.fd = some (l ++ behindLine u) → OnLine files r l u
  | ended {u : Option (List UInt8)} :
      r.c = 10 → r.eof = u.isNone → (∀ rest, u = some rest → files r.fd = some rest) → OnLine files r [] u

/-- The files differ at most at descriptor `fd`. -/
def SameBut (fd : Nat) (files files' : Nat → Option (List UInt8)) : Prop := ∀ x, x ≠ fd → files' x = files x

theorem OnLine.congr {files' : Nat → Option (List UInt8)} (h : OnLine files r l u)
    (heq : files' r.fd = files r.fd) : OnLine files' r l u := by
  cases h with
  | reading hc heof hl htext => exact .reading hc heof hl (heq.trans htext)
  | ended hc heof hrest => exact .ended hc heof (fun rest hu => heq.trans (hrest rest hu))

/-- **One character.** -/
theorem OnLine.readChar (hs : Streams calls Open) (ho : Open files sys) (h : OnLine files r l u) :
    ∃ r' files' sys', r.readChar calls sys = (r', sys') ∧ r'.fd = r.fd ∧ r'.c = l.headD 10 ∧
      OnLine files' r' l.tail u ∧ Open files' sys' ∧ SameBut r.fd files files' := by
  cases h with
  | ended hc heof hrest =>
      refine ⟨r, files, sys, ?_, rfl, hc, .ended hc heof hrest, ho, fun _ _ => rfl⟩
      rw [FrameReader.readChar, if_neg (not_not_intro hc)]
  | reading hc heof hl htext =>
      obtain ⟨sys', hread, ho'⟩ := hs.reads 1 ho htext
      have hsame : SameBut r.fd files
          (Function.update files r.fd (some ((l ++ behindLine u).drop 1))) :=
        fun x hx => Function.update_of_ne hx _ _
      cases l with
      | cons c l =>
          have hne : c ≠ 10 := fun heq => hl (heq ▸ List.mem_cons_self)
          refine ⟨{ r with c := c }, _, sys', ?_, rfl, rfl, ?_, ho', hsame⟩
          · rw [FrameReader.readChar, if_pos hc, hread]
            rfl
          · refine .reading hne heof (fun hmem => hl (List.mem_cons_of_mem c hmem)) ?_
            rw [Function.update_self]
            rfl
      | nil =>
          cases u with
          | none =>
              refine ⟨{ r with c := 10, eof := true }, _, sys', ?_, rfl, rfl, ?_, ho', hsame⟩
              · rw [FrameReader.readChar, if_pos hc, hread]
                rfl
              · exact .ended rfl rfl (fun rest hu => absurd hu (by simp))
          | some rest =>
              refine ⟨{ r with c := 10 }, _, sys', ?_, rfl, rfl, ?_, ho', hsame⟩
              · rw [FrameReader.readChar, if_pos hc, hread]
                rfl
              · refine .ended rfl heof (fun rest' hu => ?_)
                obtain rfl := Option.some_inj.1 hu
                rw [Function.update_self]
                rfl

/-- A line that is over. -/
theorem OnLine.of_nil (h : OnLine files r [] u) (hc : r.c = 10) :
    r.eof = u.isNone ∧ ∀ rest, u = some rest → files r.fd = some rest := by
  cases h with
  | reading hne => exact absurd hc hne
  | ended _ heof hrest => exact ⟨heof, hrest⟩

theorem OnLine.not_mem (h : OnLine files r l u) : 10 ∉ l := by
  cases h with
  | reading _ _ hl => exact hl
  | ended => simp

/-! ## One row -/

/-- Both files are in the lines `l0` and `l1`. -/
structure Columns (Open : (Nat → Option (List UInt8)) → σ → Prop) (files : Nat → Option (List UInt8))
    (v : FrameVars σ) (l0 l1 : List UInt8) (u0 u1 : Option (List UInt8)) : Prop where
  isOpen : Open files v.sys
  differ : v.r0.fd ≠ v.r1.fd
  line0 : OnLine files v.r0 l0 u0
  line1 : OnLine files v.r1 l1 u1

variable {v : FrameVars σ} {l0 l1 : List UInt8} {u0 u1 : Option (List UInt8)}

/-- Both characters. -/
theorem Columns.readChars (hs : Streams calls Open) (h : Columns Open files v l0 l1 u0 u1) :
    ∃ r0 sys₀ r1 sys₁ files', v.r0.readChar calls v.sys = (r0, sys₀) ∧ v.r1.readChar calls sys₀ = (r1, sys₁) ∧
      r0.fd = v.r0.fd ∧ r1.fd = v.r1.fd ∧ r0.c = l0.headD 10 ∧ r1.c = l1.headD 10 ∧
      ∀ fish, Columns Open files' ⟨r0, r1, fish, sys₁⟩ l0.tail l1.tail u0 u1 := by
  obtain ⟨r0, files₀, sys₀, hread₀, hfd₀, hc₀, hline₀, hopen₀, hsame₀⟩ := h.line0.readChar hs h.isOpen
  have hline₁ := h.line1.congr (hsame₀ _ h.differ.symm)
  obtain ⟨r1, files₁, sys₁, hread₁, hfd₁, hc₁, hline₁, hopen₁, hsame₁⟩ := hline₁.readChar hs hopen₀
  refine ⟨r0, sys₀, r1, sys₁, files₁, hread₀, hread₁, hfd₀, hfd₁, hc₀, hc₁, fun fish => ⟨hopen₁, ?_, ?_, hline₁⟩⟩
  · rw [hfd₀, hfd₁]
    exact h.differ
  · exact hline₀.congr (hsame₁ _ (by rw [hfd₀]; exact h.differ))

/-- **One row.** -/
theorem Columns.breaks_row (hs : Streams calls Open) (user : BlinkStruct) (row : Nat) :
    ∀ (n col : Nat) {files : Nat → Option (List UInt8)} {v : FrameVars σ} {l0 l1 : List UInt8},
      max l0.length l1.length = n → Columns Open files v l0 l1 u0 u1 →
      ∃ w files', Breaks (fun _ => columnPass calls user row) (v, col) w ∧
        w.fish = addBlinks v.fish (rowBlinks user row col (pairLine l0 l1)) ∧
        w.r0.c = 10 ∧ w.r1.c = 10 ∧ w.r0.fd = v.r0.fd ∧ w.r1.fd = v.r1.fd ∧
        Columns Open files' w [] [] u0 u1 := by
  intro n
  induction n with
  | zero =>
      intro col files v l0 l1 hn h
      obtain rfl : l0 = [] := List.length_eq_zero_iff.1 (by omega)
      obtain rfl : l1 = [] := List.length_eq_zero_iff.1 (by omega)
      obtain ⟨r0, sys₀, r1, sys₁, files', hread₀, hread₁, hfd₀, hfd₁, hc₀, hc₁, hnext⟩ := h.readChars hs
      refine ⟨⟨r0, r1, v.fish, sys₁⟩, files', Breaks.here ?_, rfl, hc₀, hc₁, hfd₀, hfd₁, hnext v.fish⟩
      simp only [columnPass, hread₀, hread₁]
      rw [if_pos ⟨hc₀, hc₁⟩]
      exact yields_some _
  | succ n ih =>
      intro col files v l0 l1 hn h
      obtain ⟨r0, sys₀, r1, sys₁, files', hread₀, hread₁, hfd₀, hfd₁, hc₀, hc₁, hnext⟩ := h.readChars hs
      have hsome : l0 ≠ [] ∨ l1 ≠ [] := by
        by_contra hnone
        obtain ⟨rfl, rfl⟩ : l0 = [] ∧ l1 = [] := by simpa using hnone
        exact absurd hn (by simp)
      have htails : max l0.tail.length l1.tail.length = n := by
        simp only [List.length_tail]
        omega
      -- a character is not the newline
      have hgoes : ¬ (r0.c = 10 ∧ r1.c = 10) := by
        rw [hc₀, hc₁]
        rintro ⟨h0, h1⟩
        rcases hsome with hne | hne
        · obtain ⟨c, l, rfl⟩ := List.exists_cons_of_ne_nil hne
          exact h.line0.not_mem (h0 ▸ List.mem_cons_self)
        · obtain ⟨c, l, rfl⟩ := List.exists_cons_of_ne_nil hne
          exact h.line1.not_mem (h1 ▸ List.mem_cons_self)
      have hblink : frameBlink user row col r0.c r1.c
          = frameBlink user row col (l0.headD 32) (l1.headD 32) := by
        rw [frameBlink, frameBlink, hc₀, hc₁, shownChar_headD, shownChar_headD]
      have hshown : ((r0.c ≠ 32 ∧ r0.c ≠ 10) ∨ (r1.c ≠ 32 ∧ r1.c ≠ 10))
          ↔ (l0.headD 32 ≠ 32 ∨ l1.headD 32 ≠ 32) := by
        rw [hc₀, hc₁, headD_blank_iff h.line0.not_mem, headD_blank_iff h.line1.not_mem]
      -- the row goes on with the blinks so far
      obtain ⟨fish, hfish, hpass⟩ : ∃ fish, addBlinks fish (rowBlinks user row (col + 1) (pairLine l0.tail l1.tail))
            = addBlinks v.fish (rowBlinks user row col (pairLine l0 l1)) ∧
          columnPass calls user row (v, col) = some (.inr (⟨r0, r1, fish, sys₁⟩, col + 1)) := by
        simp only [columnPass, hread₀, hread₁, if_neg hgoes, hblink, hshown, pairLine_cons hsome, rowBlinks]
        split
        · exact ⟨_, rfl, rfl⟩
        · exact ⟨_, rfl, rfl⟩
      obtain ⟨w, files'', hrun, hw, hw₀, hw₁, hwfd₀, hwfd₁, hlast⟩ := ih (col + 1) htails (hnext fish)
      refine ⟨w, files'', Breaks.pass ?_ hrun, hw.trans hfish, hw₀, hw₁, hwfd₀.trans hfd₀, hwfd₁.trans hfd₁, hlast⟩
      simp only [hpass]
      exact yields_some _

/-! ## All rows -/

/-- The lines that are left of a file. -/
def linesOf (u : Option (List UInt8)) : List (List UInt8) := u.elim [] (·.splitOn 10)

/-- A row starts: `u` is what is left of the file, or it is at its end. -/
structure AtRow (files : Nat → Option (List UInt8)) (r : FrameReader) (u : Option (List UInt8)) : Prop where
  eof : r.eof = u.isNone
  ended : u = none → r.c = 10
  goes : ∀ text, u = some text → r.c = 48 ∧ files r.fd = some text

/-- The first line that is left, and what is behind it. -/
theorem AtRow.onLine (h : AtRow files r u) :
    ∃ l u', OnLine files r l u' ∧ l = (linesOf u).headD [] ∧ linesOf u' = (linesOf u).tail := by
  cases u with
  | none => exact ⟨[], none, .ended (h.ended rfl) h.eof (fun rest hu => absurd hu (by simp)), rfl, rfl⟩
  | some text =>
      obtain ⟨hc, htext⟩ := h.goes text rfl
      obtain ⟨l, b, rfl, hl, hb⟩ := exists_first_line (10 : UInt8) text
      rcases hb.cases with rfl | ⟨rest, rfl⟩
      · refine ⟨l, none, .reading (by rw [hc]; decide) h.eof hl htext, ?_, ?_⟩
        · simp [linesOf, List.splitOn_eq_singleton hl]
        · simp [linesOf, List.splitOn_eq_singleton hl]
      · refine ⟨l, some rest, .reading (by rw [hc]; decide) h.eof hl htext, ?_, ?_⟩
        · simp [linesOf, List.splitOn_append_cons_self_of_not_mem hl]
        · simp [linesOf, List.splitOn_append_cons_self_of_not_mem hl]

theorem AtRow.congr {files' : Nat → Option (List UInt8)} (h : AtRow files r u)
    (heq : files' r.fd = files r.fd) : AtRow files' r u :=
  ⟨h.eof, h.ended, fun text hu => ⟨(h.goes text hu).1, heq.trans (h.goes text hu).2⟩⟩

/-- Behind a row the next one starts. -/
theorem OnLine.nextRow (hs : Streams calls Open) (ho : Open files sys) (h : OnLine files r [] u)
    (hc : r.c = 10) :
    ∃ r' files' sys', r.nextRow calls sys = (r', sys') ∧ r'.fd = r.fd ∧ AtRow files' r' u ∧
      Open files' sys' ∧ SameBut r.fd files files' := by
  obtain ⟨heof, hrest⟩ := h.of_nil hc
  cases u with
  | none =>
      refine ⟨{ r with c := 10 }, _, _, ?_, rfl, ⟨heof, fun _ => rfl, fun text hu => absurd hu (by simp)⟩,
        hs.closes r.fd ho, fun x hx => Function.update_of_ne hx _ _⟩
      rw [FrameReader.nextRow, if_pos (by simpa using heof)]
  | some rest =>
      refine ⟨{ r with c := 48 }, files, sys, ?_, rfl, ⟨heof, fun hu => absurd hu (by simp), ?_⟩, ho,
        fun _ _ => rfl⟩
      · rw [FrameReader.nextRow, if_neg (by simp [heof])]
      · exact fun text hu => ⟨rfl, hrest text hu⟩

/-- Both files are at the start of a row. -/
structure Rows (Open : (Nat → Option (List UInt8)) → σ → Prop) (files : Nat → Option (List UInt8))
    (v : FrameVars σ) (u0 u1 : Option (List UInt8)) : Prop where
  isOpen : Open files v.sys
  differ : v.r0.fd ≠ v.r1.fd
  row0 : AtRow files v.r0 u0
  row1 : AtRow files v.r1 u1

theorem Columns.nextRows (hs : Streams calls Open) (h : Columns Open files v [] [] u0 u1) (hc₀ : v.r0.c = 10)
    (hc₁ : v.r1.c = 10) :
    ∃ r0 sys₀ r1 sys₁ files', v.r0.nextRow calls v.sys = (r0, sys₀) ∧ v.r1.nextRow calls sys₀ = (r1, sys₁) ∧
      Rows Open files' ⟨r0, r1, v.fish, sys₁⟩ u0 u1 := by
  obtain ⟨r0, files₀, sys₀, hnext₀, hfd₀, hrow₀, hopen₀, hsame₀⟩ := h.line0.nextRow hs h.isOpen hc₀
  have hline₁ := h.line1.congr (hsame₀ _ h.differ.symm)
  obtain ⟨r1, files₁, sys₁, hnext₁, hfd₁, hrow₁, hopen₁, hsame₁⟩ := hline₁.nextRow hs hopen₀ hc₁
  refine ⟨r0, sys₀, r1, sys₁, files₁, hnext₀, hnext₁, hopen₁, ?_, ?_, hrow₁⟩
  · rw [hfd₀, hfd₁]
    exact h.differ
  · exact hrow₀.congr (hsame₁ _ (by rw [hfd₀]; exact h.differ))

theorem linesOf_eq_nil_iff : linesOf u = [] ↔ u = none := by
  cases u with
  | none => simp [linesOf]
  | some text => simp [linesOf, List.splitOn_ne_nil]

theorem pairLines_cons {lines0 lines1 : List (List UInt8)} (h : lines0 ≠ [] ∨ lines1 ≠ []) :
    pairLines lines0 lines1
      = pairLine (lines0.headD []) (lines1.headD []) :: pairLines lines0.tail lines1.tail := by
  cases lines0 with
  | nil =>
      cases lines1 with
      | nil => simp at h
      | cons l1 lines1 => simp [pairLines]
  | cons l0 lines0 =>
      cases lines1 with
      | nil => simp [pairLines]
      | cons l1 lines1 => simp [pairLines]

theorem addBlinks_append (f : Fish) (b b' : List BlinkStruct) :
    addBlinks f (b ++ b') = addBlinks (addBlinks f b) b' :=
  List.foldl_append

/-- **All rows.** -/
theorem Rows.breaks (hs : Streams calls Open) (user : BlinkStruct) :
    ∀ (n row : Nat) {files : Nat → Option (List UInt8)} {v : FrameVars σ} {u0 u1 : Option (List UInt8)},
      max (linesOf u0).length (linesOf u1).length = n → Rows Open files v u0 u1 →
      ∃ w, Breaks (fun fuel => rowPass calls fuel user) (v, row) w ∧
        w.fish = addBlinks v.fish (gridBlinks user row (pairLines (linesOf u0) (linesOf u1))) := by
  intro n
  induction n with
  | zero =>
      intro row files v u0 u1 hn h
      obtain rfl : u0 = none := linesOf_eq_nil_iff.1 (List.length_eq_zero_iff.1 (by omega))
      obtain rfl : u1 = none := linesOf_eq_nil_iff.1 (List.length_eq_zero_iff.1 (by omega))
      refine ⟨v, Breaks.here ?_, rfl⟩
      simp only [rowPass, h.row0.eof, h.row1.eof]
      exact yields_some _
  | succ n ih =>
      intro row files v u0 u1 hn h
      have hsome : linesOf u0 ≠ [] ∨ linesOf u1 ≠ [] := by
        by_contra hnone
        obtain ⟨h0, h1⟩ : linesOf u0 = [] ∧ linesOf u1 = [] := by simpa using hnone
        rw [h0, h1] at hn
        exact absurd hn (by simp)
      have hgoes : v.r0.eof = false ∨ v.r1.eof = false := by
        rw [h.row0.eof, h.row1.eof]
        refine hsome.imp (fun hne => ?_) (fun hne => ?_)
        · simpa using Option.isSome_iff_ne_none.2 (mt linesOf_eq_nil_iff.2 hne)
        · simpa using Option.isSome_iff_ne_none.2 (mt linesOf_eq_nil_iff.2 hne)
      obtain ⟨l0, u0', hline0, hl0, hu0⟩ := h.row0.onLine
      obtain ⟨l1, u1', hline1, hl1, hu1⟩ := h.row1.onLine
      obtain ⟨w, files₁, hrun, hfish, hc₀, hc₁, hfd₀, hfd₁, hlast⟩ :=
        Columns.breaks_row hs user row _ 0 rfl ⟨h.isOpen, h.differ, hline0, hline1⟩
      obtain ⟨r0, sys₀, r1, sys₁, files₂, hnext₀, hnext₁, hrows⟩ := hlast.nextRows hs hc₀ hc₁
      have htails : max (linesOf u0').length (linesOf u1').length = n := by
        rw [hu0, hu1, List.length_tail, List.length_tail]
        omega
      obtain ⟨w', hrun', hfish'⟩ := ih (row + 1) htails hrows
      refine ⟨w', Breaks.pass ?_ hrun', ?_⟩
      · have hmap := hrun.yields.map (fun v : FrameVars σ =>
          (.inr (⟨(v.r0.nextRow calls v.sys).1, (v.r1.nextRow calls (v.r0.nextRow calls v.sys).2).1, v.fish,
            (v.r1.nextRow calls (v.r0.nextRow calls v.sys).2).2⟩, row + 1) : FrameVars σ ⊕ FrameVars σ × Nat))
        simp only [hnext₀, hnext₁] at hmap
        simp only [rowPass, if_pos hgoes]
        exact hmap
      · rw [hfish', pairLines_cons hsome, gridBlinks, addBlinks_append, ← hl0, ← hl1, ← hu0, ← hu1, ← hfish]

/-- **`add_frames` adds the blinks of the grid.** -/
theorem exists_yields_addFrames (hs : Streams calls Open) {f0 f1 : Nat → UInt8} {file0 file1 : List UInt8}
    {fd0 fd1 : Nat} {sys sys₀ sys₁ : σ} (hopen₀ : calls.ece391Open f0 sys = (some fd0, sys₀))
    (hopen₁ : calls.ece391Open f1 sys₀ = (some fd1, sys₁)) (hne : fd0 ≠ fd1) (ho : Open files sys₁)
    (hfile0 : files fd0 = some file0) (hfile1 : files fd1 = some file1) (user : BlinkStruct) (fish : Fish) :
    ∃ sys', Yields (addFrames calls f0 f1 user fish sys)
      (.added (addBlinks fish (frameBlinks user file0 file1)) sys') := by
  have hrows : Rows Open files ⟨⟨fd0, 48, false⟩, ⟨fd1, 48, false⟩, fish, sys₁⟩ (some file0) (some file1) := by
    refine ⟨ho, hne, ⟨rfl, fun hu => absurd hu (by simp), ?_⟩, ⟨rfl, fun hu => absurd hu (by simp), ?_⟩⟩
    · rintro text ⟨rfl⟩
      exact ⟨rfl, hfile0⟩
    · rintro text ⟨rfl⟩
      exact ⟨rfl, hfile1⟩
  obtain ⟨w, hrun, hfish⟩ := hrows.breaks hs (frameUser user) _ 0 rfl
  have hmap := hrun.yields.map (fun v => (.added v.fish v.sys : FramesEnd σ))
  rw [hfish] at hmap
  refine ⟨w.sys, hmap.congr (fun fuel => ?_)⟩
  rw [addFrames, hopen₀]
  simp only [hopen₁]

end Reading

end UnixTerminal
