import UnixTerminal.Proofs.Boot
import UnixTerminal.Proofs.NumberFormat

set_option autoImplicit false

/-! # Format strings

A format is a list of pieces: characters to print, and conversions with any number of `#`s. One pass of
`printf` goes over one piece, whatever is behind it. A format that ends inside a conversion has the NUL for
its last specifier, and the scanner goes past it. -/

namespace UnixTerminal

/-! ## Pieces -/

/-- A character to print, or a conversion: `%`, some `#`s and the specifier. -/
inductive FormatPiece
  | char (c : UInt8) (hc : c ≠ 37)
  | conv (hashes : Nat) (c : UInt8) (hc : c ≠ 35)

/-- `x`, `u`, `d`, `c` and `s`. -/
def takesArg (c : UInt8) : Bool := c == 120 || c == 117 || c == 100 || c == 99 || c == 115

namespace FormatPiece

/-- How a piece is written. -/
def text : FormatPiece → List UInt8
  | .char c _ => [c]
  | .conv hashes c _ => 37 :: (List.replicate hashes 35 ++ [c])

/-- How many arguments it takes. -/
def words : FormatPiece → Nat
  | .char _ _ => 0
  | .conv _ c _ => if takesArg c then 1 else 0

/-- What it prints for the argument `arg`. -/
def printed (call : PrintfCall) (arg : UInt32) : FormatPiece → List UInt8
  | .char c _ => [c]
  | .conv hashes c _ =>
      if c = 37 then [37]
      else if c = 120 then (if decide (0 < hashes) then paddedHex arg else itoaText 16 arg.toNat)
      else if c = 117 then itoaText 10 arg.toNat
      else if c = 100 then signedText arg.toInt32.toInt
      else if c = 99 then [arg.toUInt8]
      else if c = 115 then cstr (call.strings arg)
      else []

end FormatPiece

/-- A format of pieces. -/
def piecesText (ps : List FormatPiece) : List UInt8 := ps.flatMap FormatPiece.text

/-- The arguments that the pieces take. -/
def piecesWords (ps : List FormatPiece) : Nat := (ps.map FormatPiece.words).sum

/-- What the pieces print, from argument `esp` on. -/
def formatText (call : PrintfCall) : Nat → List FormatPiece → List UInt8
  | _, [] => []
  | esp, q :: ps => q.printed call (call.args esp) ++ formatText call (esp + q.words) ps

/-- Is the scanner behind `%` and `#`s? -/
def inConversion (inside : Bool) (c : UInt8) : Bool := if inside then c == 35 else c == 37

/-- The format ends inside a conversion. -/
def CutOff (s : List UInt8) : Prop := s.foldl inConversion false = true

/-- Every format is a list of pieces, or cut off inside the last conversion. -/
theorem exists_pieces (s : List UInt8) :
    ∃ ps, (¬ CutOff s ∧ s = piecesText ps)
      ∨ CutOff s ∧ ∃ n, s = piecesText ps ++ 37 :: List.replicate n 35 := by
  unfold CutOff
  induction s using List.reverseRecOn with
  | nil => exact ⟨[], Or.inl ⟨Bool.false_ne_true, rfl⟩⟩
  | append_singleton s c ih =>
      rw [List.foldl_append, List.foldl_cons, List.foldl_nil]
      obtain ⟨ps, ⟨hout, rfl⟩ | ⟨hin, n, rfl⟩⟩ := ih
      · by_cases hc : c = 37
        · exact ⟨ps, Or.inr ⟨by simp [inConversion, hout, hc], 0, by simp [hc]⟩⟩
        · exact ⟨ps ++ [.char c hc],
            Or.inl ⟨by simp [inConversion, hout, hc], by simp [piecesText, FormatPiece.text]⟩⟩
      · by_cases hc : c = 35
        · refine ⟨ps, Or.inr ⟨by simp [inConversion, hin, hc], n + 1, ?_⟩⟩
          rw [hc, List.replicate_succ', List.append_assoc, List.cons_append]
        · exact ⟨ps ++ [.conv n c hc],
            Or.inl ⟨by simp [inConversion, hin, hc], by simp [piecesText, FormatPiece.text]⟩⟩

/-- The conversions of a format that take an argument; `inside`: it starts behind `%` and `#`s. -/
def conversions : Bool → List UInt8 → Nat
  | _, [] => 0
  | false, c :: s => conversions (c == 37) s
  | true, c :: s =>
      if c = 35 then conversions true s else (if takesArg c then 1 else 0) + conversions false s

theorem conversions_hashes (n : Nat) (s : List UInt8) :
    conversions true (List.replicate n 35 ++ s) = conversions true s := by
  induction n with
  | zero => rfl
  | succ n ih => simpa [List.replicate_succ, conversions] using ih

theorem conversions_text_append (q : FormatPiece) (s : List UInt8) :
    conversions false (q.text ++ s) = q.words + conversions false s := by
  cases q with
  | char c hc =>
      have hbeq : (c == 37) = false := beq_false_of_ne hc
      simp [FormatPiece.text, FormatPiece.words, conversions, hbeq]
  | conv n c hc =>
      rw [FormatPiece.text, List.cons_append, conversions, List.append_assoc]
      rw [show ((37 : UInt8) == 37) = true from rfl, conversions_hashes]
      simp [conversions, FormatPiece.words, hc]

theorem conversions_piecesText (ps : List FormatPiece) :
    conversions false (piecesText ps) = piecesWords ps := by
  induction ps with
  | nil => rfl
  | cons q ps ih =>
      rw [piecesText, List.flatMap_cons, conversions_text_append]
      exact congrArg (q.words + ·) ih

/-! ## The scanner over pieces -/

/-- The bytes `t` are at index `i` of a memory. -/
def TextAt (mem : Nat → UInt8) (i : Nat) (t : List UInt8) : Prop :=
  ∀ j (h : j < t.length), mem (i + j) = t[j]

theorem TextAt.left {mem : Nat → UInt8} {i : Nat} {s t : List UInt8} (h : TextAt mem i (s ++ t)) :
    TextAt mem i s := fun j hj => by
  rw [h j (by rw [List.length_append]; omega), List.getElem_append_left hj]

theorem TextAt.right {mem : Nat → UInt8} {i : Nat} {s t : List UInt8} (h : TextAt mem i (s ++ t)) :
    TextAt mem (i + s.length) t := fun j hj => by
  rw [Nat.add_assoc, h _ (by rw [List.length_append]; omega),
    List.getElem_append_right (Nat.le_add_right _ _)]
  simp only [Nat.add_sub_cancel_left]

/-- The state `q` behind `p`: the scanner is `len` bytes further and loaded none behind these, `out` was
    printed, `words` arguments were loaded in their order, and no store was outside a `conv_buf`. -/
structure Scanned (len : Nat) (out : List UInt8) (words : Nat) (p q : Printf) : Prop where
  buf : q.buf = p.buf + len
  esp : q.esp = p.esp + words
  kernel : q.kernel = p.kernel.puts out
  words : q.words = p.words ++ List.range' p.esp words
  loads : ∀ i ∈ q.loads, i ∈ p.loads ∨ i < p.buf + len
  convBufs : ∀ b ∈ q.convBufs, b ∈ p.convBufs ∨ ∀ i ∈ b.2, i < b.1

theorem Scanned.refl (p : Printf) : Scanned 0 [] 0 p p where
  buf := rfl
  esp := rfl
  kernel := rfl
  words := by simp
  loads _ hi := Or.inl hi
  convBufs _ hb := Or.inl hb

theorem Scanned.trans {len len' words words' : Nat} {out out' : List UInt8} {p q r : Printf}
    (h : Scanned len out words p q) (h' : Scanned len' out' words' q r) :
    Scanned (len + len') (out ++ out') (words + words') p r where
  buf := by rw [h'.buf, h.buf, Nat.add_assoc]
  esp := by rw [h'.esp, h.esp, Nat.add_assoc]
  kernel := by rw [h'.kernel, h.kernel, Kernel.puts, Kernel.puts, Kernel.puts, List.foldl_append]
  words := by rw [h'.words, h.words, h.esp, List.append_assoc, List.range'_append_1]
  loads i hi := by
    rcases h'.loads i hi with hq | hlt
    · exact (h.loads i hq).imp_right (fun hlt => by omega)
    · have hbuf := h.buf
      exact Or.inr (by omega)
  convBufs b hb := by
    rcases h'.convBufs b hb with hq | hin
    · exact h.convBufs b hq
    · exact Or.inr hin

namespace Printf

variable {call : PrintfCall} {fuel : Nat} {p : Printf}

theorem loop_nul (h : call.format p.buf = 0) (n : Nat) : loop call fuel n p = some p.load := by
  cases n <;> simp [loop, h]

theorem loop_succ (h : call.format p.buf ≠ 0) (n : Nat) :
    loop call fuel (n + 1) p = (p.load.pass call fuel).bind (loop call fuel n) := by
  simp [loop, h]

theorem mem_load {i : Nat} (hi : i ∈ p.load.loads) : i ∈ p.loads ∨ i = p.buf := by
  rcases List.mem_append.1 hi with hi | hi
  · exact Or.inl hi
  · exact Or.inr (List.mem_singleton.1 hi)

/-- A character is printed. -/
theorem scanned_char {c : UInt8} (hc : c ≠ 37) (hat : call.format p.buf = c) :
    ∃ q, p.load.pass call fuel = some q ∧ Scanned 1 [c] 0 p q := by
  subst hat
  refine ⟨_, if_neg hc, rfl, rfl, rfl, by simp [load], fun i hi => ?_, fun b hb => Or.inl hb⟩
  -- the test, the `switch` and `putc(*buf)`
  rcases mem_load (p := p.load.load) hi with hi | rfl
  · rcases mem_load (p := p.load) hi with hi | rfl
    · exact (mem_load hi).imp_right (fun h => by omega)
    · exact Or.inr (Nat.lt_add_one p.buf)
  · exact Or.inr (Nat.lt_add_one p.buf)

/-- The `#`s. -/
theorem hashLoop_eq {n : Nat} (hat : TextAt call.format p.buf (List.replicate n 35))
    (hend : call.format (p.buf + n) ≠ 35) (hfuel : n ≤ fuel) :
    whileRun (fun s : Bool × Printf => call.format s.2.buf == 35) hash fuel (false, p)
      = some (decide (0 < n), { p with buf := p.buf + n, loads := p.loads ++ List.range' p.buf n }) := by
  let after : Nat → Bool × Printf := fun j =>
    (decide (0 < j), { p with buf := p.buf + j, loads := p.loads ++ List.range' p.buf j })
  have hpass : ∀ j, j < n → (call.format (after j).2.buf == 35) = true ∧ hash (after j) = after (j + 1) := by
    intro j hj
    have h := hat j (by rw [List.length_replicate]; exact hj)
    rw [List.getElem_replicate] at h
    exact ⟨by simpa [after] using h, by simp [after, hash, load, List.range'_concat, Nat.add_assoc]⟩
  have hstop : (call.format (after n).2.buf == 35) = false := by simpa [after] using hend
  have hrun : whileRun (fun s : Bool × Printf => call.format s.2.buf == 35) hash fuel (after 0)
      = some (after n) := whileRun_eq hpass hstop hfuel
  simpa [after] using hrun

/-- The specifier is loaded, and `buf` steps over it. -/
theorem scanned_specifier {out : List UInt8} {words : Nat} {q : Printf} (h : Scanned 0 out words p.load q) :
    Scanned 1 out words p { q with buf := q.buf + 1 } where
  buf := congrArg (· + 1) h.buf
  esp := h.esp
  kernel := h.kernel
  words := h.words
  loads i hi := by
    rcases h.loads i hi with hi | hlt
    · exact (mem_load hi).imp_right (fun h => by omega)
    · exact Or.inr (Nat.lt_succ_of_lt hlt)
  convBufs := h.convBufs

/-- The text of a number is printed, and its `conv_buf` is over. -/
theorem scanned_number {c : Option Converted} {r : Converted} {size : Nat} {s : List UInt8}
    (hc : c = some r) (hr : r.Holds size s) (hfuel : 33 ≤ fuel) :
    ∃ q, c.bind (p.load.putsConverted fuel size) = some q
      ∧ Scanned 1 s 1 p { q with buf := q.buf + 1 } := by
  rw [hc, Option.bind_some, putsConverted,
    putsAt_eq hr.text hr.ne_zero (hr.short.trans hfuel) p.load.kernel]
  refine ⟨_, rfl, scanned_specifier ⟨rfl, rfl, rfl, rfl, fun i hi => Or.inl hi, fun b hb => ?_⟩⟩
  rcases List.mem_append.1 hb with hb | hb
  · exact Or.inl hb
  · rw [List.mem_singleton.1 hb]
    exact Or.inr hr.within

/-- What a specifier does, by cases on it as in the `switch`. -/
theorem scanned_conversion {c : UInt8} (hc : c ≠ 35) (hat : call.format p.buf = c) (n : Nat)
    (hfuel : 33 ≤ fuel) :
    ∃ q, p.conversion call fuel (decide (0 < n)) = some q
      ∧ Scanned 1 ((FormatPiece.conv n c hc).printed call (call.args p.esp))
          (FormatPiece.conv n c hc).words p { q with buf := q.buf + 1 } := by
  subst hat
  have hnumber : 32 ≤ fuel := Nat.le_of_succ_le hfuel
  unfold conversion FormatPiece.printed FormatPiece.words
  dsimp only
  by_cases hpercent : call.format p.buf = 37
  · rw [if_pos hpercent, if_pos hpercent, hpercent]
    refine ⟨_, rfl, scanned_specifier ⟨rfl, rfl, rfl, by simp [takesArg], ?_, ?_⟩⟩
    · exact fun i hi => Or.inl hi
    · exact fun b hb => Or.inl hb
  rw [if_neg hpercent, if_neg hpercent]
  by_cases hx : call.format p.buf = 120
  · rw [if_pos hx, if_pos hx, hx]
    obtain ⟨r, hr, hheld⟩ := convHex_spec (call.args p.esp) (call.convBuf p.esp) (decide (0 < n))
      hnumber
    exact scanned_number hr hheld hfuel
  rw [if_neg hx, if_neg hx]
  by_cases hu : call.format p.buf = 117
  · rw [if_pos hu, if_pos hu, hu]
    obtain ⟨r, hr, hheld⟩ := convUnsigned_spec (call.args p.esp) (call.convBuf p.esp) hnumber
    exact scanned_number hr hheld hfuel
  rw [if_neg hu, if_neg hu]
  by_cases hd : call.format p.buf = 100
  · rw [if_pos hd, if_pos hd, hd]
    obtain ⟨r, hr, hheld⟩ := convSigned_spec (call.args p.esp) (call.convBuf p.esp) hnumber
    exact scanned_number hr hheld hfuel
  rw [if_neg hd, if_neg hd]
  by_cases hchar : call.format p.buf = 99
  · rw [if_pos hchar, if_pos hchar, hchar]
    refine ⟨_, rfl, scanned_specifier ⟨rfl, rfl, rfl, by simp [takesArg, word], ?_, ?_⟩⟩
    · exact fun i hi => Or.inl hi
    · exact fun b hb => Or.inl hb
  rw [if_neg hchar, if_neg hchar]
  by_cases hs : call.format p.buf = 115
  · rw [if_pos hs, if_pos hs, hs]
    refine ⟨_, rfl, scanned_specifier ⟨rfl, rfl, rfl, by simp [takesArg, word], ?_, ?_⟩⟩
    · exact fun i hi => Or.inl hi
    · exact fun b hb => Or.inl hb
  have hnone : takesArg (call.format p.buf) = false := by
    simp [takesArg, hx, hu, hd, hchar, hs]
  rw [if_neg hs, if_neg hs, hnone]
  exact ⟨_, rfl, scanned_specifier (Scanned.refl _)⟩

/-- A whole conversion. -/
theorem scanned_conv {n : Nat} {c : UInt8} (hc : c ≠ 35)
    (hat : TextAt call.format p.buf (FormatPiece.conv n c hc).text) (hfuel : n + 33 ≤ fuel) :
    ∃ q, p.load.pass call fuel = some q
      ∧ Scanned (n + 2) ((FormatPiece.conv n c hc).printed call (call.args p.esp))
          (FormatPiece.conv n c hc).words p q := by
  have hpercent : call.format p.buf = 37 := hat 0 (Nat.zero_lt_succ _)
  have hbehind : TextAt call.format (p.buf + 1) (List.replicate n 35 ++ [c]) :=
    TextAt.right (s := [37]) hat
  have hspec : call.format (p.buf + 1 + n) = c := by
    have h := hbehind.right 0 Nat.zero_lt_one
    rwa [List.length_replicate] at h
  -- behind `%`, and behind the `#`s
  let p₀ : Printf := { p.load.load with buf := p.buf + 1 }
  let p₁ : Printf := { p₀ with buf := p₀.buf + n, loads := p₀.loads ++ List.range' p₀.buf n }
  have hstart : Scanned 1 [] 0 p p₀ := by
    refine ⟨rfl, rfl, rfl, by simp [p₀, load], fun i hi => ?_, fun b hb => Or.inl hb⟩
    rcases mem_load (p := p.load) hi with hi | rfl
    · exact (mem_load hi).imp_right (fun h => by omega)
    · exact Or.inr (Nat.lt_add_one p.buf)
  have hhashes : Scanned n [] 0 p₀ p₁ := by
    refine ⟨rfl, rfl, rfl, by simp [p₁], fun i hi => ?_, fun b hb => Or.inl hb⟩
    refine (List.mem_append.1 hi).imp_right (fun h => ?_)
    exact (List.mem_range'_1.1 h).2
  have hrun := hashLoop_eq (p := p₀) hbehind.left
    (show call.format (p.buf + 1 + n) ≠ 35 by rw [hspec]; exact hc) (by omega : n ≤ fuel)
  obtain ⟨q, hq, hscan⟩ := scanned_conversion (p := p₁) hc hspec n (by omega : 33 ≤ fuel)
  refine ⟨{ q with buf := q.buf + 1 }, ?_, ?_⟩
  · unfold pass
    dsimp only
    rw [if_pos (show call.format p.load.buf = 37 from hpercent)]
    refine (congrArg (fun o => Option.bind o _) hrun).trans ?_
    exact congrArg (Option.map fun r : Printf => { r with buf := r.buf + 1 }) hq
  · have h := (hstart.trans hhashes).trans hscan
    rw [List.append_nil, List.nil_append, show 1 + n + 1 = n + 2 by omega, Nat.zero_add] at h
    exact h

/-- **One pass goes over one piece.** -/
theorem scanned_piece (q : FormatPiece) (hat : TextAt call.format p.buf q.text)
    (hfuel : q.text.length + 33 ≤ fuel) :
    ∃ p', p.load.pass call fuel = some p'
      ∧ Scanned q.text.length (q.printed call (call.args p.esp)) q.words p p' := by
  cases q with
  | char c hc =>
      exact scanned_char hc (hat 0 Nat.zero_lt_one)
  | conv n c hc =>
      have hlen : (FormatPiece.conv n c hc).text.length = n + 2 := by simp [FormatPiece.text]
      rw [hlen] at hfuel ⊢
      exact scanned_conv hc hat (by omega)

/-- **All pieces**, by induction on them: each is one pass of the loop. -/
theorem loop_pieces (ps : List FormatPiece) (hstart : ∀ q ∈ ps, q.text.head? ≠ some 0) (n : Nat) :
    ∀ {p : Printf}, TextAt call.format p.buf (piecesText ps) → (piecesText ps).length + 33 ≤ fuel →
      ∃ p', loop call fuel (n + ps.length) p = loop call fuel n p'
        ∧ Scanned (piecesText ps).length (formatText call p.esp ps) (piecesWords ps) p p' := by
  induction ps with
  | nil =>
      intro p _ _
      exact ⟨p, rfl, Scanned.refl p⟩
  | cons q ps ih =>
      intro p hat hfuel
      have htext : piecesText (q :: ps) = q.text ++ piecesText ps := List.flatMap_cons
      rw [htext] at hat hfuel ⊢
      rw [List.length_append] at hfuel ⊢
      obtain ⟨p₁, hpass, hscan⟩ := scanned_piece q hat.left (by omega : q.text.length + 33 ≤ fuel)
      have hne : call.format p.buf ≠ 0 := by
        have hfirst : q.text ≠ [] := by cases q <;> simp [FormatPiece.text]
        have hhead := hstart q List.mem_cons_self
        rw [List.head?_eq_some_head hfirst] at hhead
        have hbyte := hat.left 0 (List.length_pos_iff.2 hfirst)
        rw [Nat.add_zero, List.getElem_zero] at hbyte
        rw [hbyte]
        exact fun h => hhead (congrArg some h)
      have hrest : TextAt call.format p₁.buf (piecesText ps) := by
        rw [hscan.buf]
        exact hat.right
      obtain ⟨p', hloop, hscan'⟩ := ih (fun q hq => hstart q (List.mem_cons_of_mem _ hq)) hrest (by omega)
      refine ⟨p', ?_, ?_⟩
      · rw [List.length_cons, ← Nat.add_assoc, loop_succ hne, hpass, Option.bind_some, hloop]
      · have h := hscan.trans hscan'
        rw [hscan.esp] at h
        exact h

theorem loads_putsConverted {c : Option Converted} {size : Nat} {q : Printf}
    (h : c.bind (p.putsConverted fuel size) = some q) : q.loads = p.loads := by
  obtain ⟨r, -, hr⟩ := Option.bind_eq_some_iff.1 h
  obtain ⟨_, -, rfl⟩ := Option.map_eq_some_iff.1 hr
  rfl

theorem loads_conversion {alternate : Bool} {q : Printf} (h : p.conversion call fuel alternate = some q) :
    q.loads = p.load.loads := by
  unfold conversion at h
  dsimp only at h
  split_ifs at h
  · cases h
    rfl
  · exact loads_putsConverted h
  · exact loads_putsConverted h
  · exact loads_putsConverted h
  · cases h
    rfl
  · cases h
    rfl
  · cases h
    rfl

theorem loads_subset_load (p : Printf) : p.loads ⊆ p.load.loads :=
  List.subset_append_left _ _

/-- What was loaded stays in the record. -/
theorem loads_pass {q : Printf} (h : p.pass call fuel = some q) : p.loads ⊆ q.loads := by
  unfold pass at h
  dsimp only at h
  split_ifs at h
  · obtain ⟨s, hs, hq⟩ := Option.bind_eq_some_iff.1 h
    obtain ⟨r, hr, rfl⟩ := Option.map_eq_some_iff.1 hq
    have hhash := whileRun_invariant (I := fun s : Bool × Printf => p.loads ⊆ s.2.loads)
      (fun s hs => List.Subset.trans hs (loads_subset_load s.2)) hs (loads_subset_load p)
    rw [show ({ r with buf := r.buf + 1 } : Printf).loads = r.loads from rfl, loads_conversion hr]
    exact List.Subset.trans hhash (loads_subset_load s.2)
  · cases h
    exact List.Subset.trans (loads_subset_load p) (loads_subset_load p.load)

/-- The byte under the scanner is loaded, whatever comes then. -/
theorem load_subset_loop (n : Nat) : ∀ {p q : Printf}, loop call fuel n p = some q → p.load.loads ⊆ q.loads := by
  induction n with
  | zero =>
      intro p q h
      rw [loop] at h
      split_ifs at h
      cases h
      exact List.Subset.refl _
  | succ n ih =>
      intro p q h
      by_cases hnul : call.format p.buf = 0
      · rw [loop_nul hnul] at h
        cases h
        exact List.Subset.refl _
      · rw [loop_succ hnul] at h
        obtain ⟨r, hr, hq⟩ := Option.bind_eq_some_iff.1 h
        exact List.Subset.trans (loads_pass hr) (List.Subset.trans (loads_subset_load r) (ih hq))

end Printf

/-! ## `printf` -/

section Calls

variable {call : PrintfCall} {s : List UInt8} {k : Kernel} {fuel : Nat}

theorem StringAt.textAt {mem : Nat → UInt8} {i : Nat} (h : StringAt mem i s) : TextAt mem i (s ++ [0]) := by
  intro j hj
  rw [List.length_append, List.length_singleton] at hj
  rcases Nat.lt_or_eq_of_le (Nat.le_of_lt_succ hj) with hlt | rfl
  · rw [List.getElem_append_left hlt, h.char j hlt]
  · rw [List.getElem_append_right (Nat.le_refl _), h.nul]
    simp

theorem head?_text_ne {ps : List FormatPiece} (hs : ∀ c ∈ piecesText ps, c ≠ 0) :
    ∀ q ∈ ps, q.text.head? ≠ some 0 := by
  intro q hq h
  exact hs 0 (List.mem_flatMap.2 ⟨q, hq, List.mem_of_head? h⟩) rfl

theorem length_le_length_piecesText (ps : List FormatPiece) : ps.length ≤ (piecesText ps).length := by
  induction ps with
  | nil => exact Nat.le_refl 0
  | cons q ps ih =>
      have hfirst : 0 < q.text.length := by cases q <;> simp [FormatPiece.text]
      rw [piecesText, List.flatMap_cons, List.length_append, List.length_cons]
      exact (Nat.add_comm _ 1).le.trans (Nat.add_le_add hfirst ih)

/-- `printf` goes over the pieces that it finds at the start of the memory. -/
theorem printf_pieces {ps : List FormatPiece} (hat : TextAt call.format 0 (piecesText ps))
    (hstart : ∀ q ∈ ps, q.text.head? ≠ some 0) (hfuel : (piecesText ps).length + 33 ≤ fuel) :
    ∃ p, printf fuel call k = Printf.loop call fuel (fuel - ps.length) p
      ∧ Scanned (piecesText ps).length (formatText call 0 ps) (piecesWords ps)
          ⟨0, 0, k, [], [], []⟩ p := by
  have hle := length_le_length_piecesText ps
  obtain ⟨p, hloop, hscan⟩ := Printf.loop_pieces ps hstart (fuel - ps.length)
    (p := ⟨0, 0, k, [], [], []⟩) hat hfuel
  rw [Nat.sub_add_cancel (by omega)] at hloop
  exact ⟨p, hloop, hscan⟩

/-- What is expected of `printf` for the format `s`: no byte behind its NUL is loaded, each conversion with
    an argument loads the next one, and the value is the length. -/
structure FormatKept (s : List UInt8) (p : Printf) : Prop where
  loads : ∀ i ∈ p.loads, i ≤ s.length
  words : p.words = List.range (conversions false s)
  ret : p.ret = s.length

/-- **A format of pieces.** `printf` prints what they print and ends on the NUL behind them; no `conv_buf`
    is left. -/
theorem printf_piecesText {ps : List FormatPiece} (hs : ∀ c ∈ piecesText ps, c ≠ 0)
    (hformat : StringAt call.format 0 (piecesText ps)) (hfuel : (piecesText ps).length + 33 ≤ fuel) :
    ∃ p, printf fuel call k = some p ∧ FormatKept (piecesText ps) p
      ∧ p.kernel = k.puts (formatText call 0 ps) ∧ ∀ b ∈ p.convBufs, ∀ i ∈ b.2, i < b.1 := by
  obtain ⟨p, hrun, hscan⟩ := printf_pieces (k := k) hformat.textAt.left (head?_text_ne hs) hfuel
  have hbuf : p.buf = (piecesText ps).length := hscan.buf.trans (Nat.zero_add _)
  have hnul : call.format p.buf = 0 := by rw [hbuf, ← hformat.nul, Nat.zero_add]
  rw [Printf.loop_nul hnul] at hrun
  refine ⟨p.load, hrun, ⟨fun i hi => ?_, ?_, ?_⟩, hscan.kernel, fun b hb => ?_⟩
  · rcases Printf.mem_load hi with hi | rfl
    · rcases hscan.loads i hi with hnone | hlt
      · exact absurd hnone List.not_mem_nil
      · exact (hlt.trans_eq (Nat.zero_add _)).le
    · exact hbuf.le
  · rw [conversions_piecesText, List.range_eq_range']
    exact hscan.words
  · exact congrArg Nat.cast hbuf
  · exact (hscan.convBufs b hb).resolve_left List.not_mem_nil

/-- The scanner goes past the NUL of a format that is cut off, and loads the byte behind it. -/
theorem CutOff.loads_behind (hs : ∀ c ∈ s, c ≠ 0) (hformat : StringAt call.format 0 s) (hcut : CutOff s)
    {p : Printf} (hfuel : s.length + 34 ≤ fuel) (h : printf fuel call k = some p) :
    s.length + 1 ∈ p.loads := by
  obtain ⟨ps, ⟨hnot, -⟩ | ⟨-, n, rfl⟩⟩ := exists_pieces s
  · exact absurd hcut hnot
  -- the NUL is taken for the specifier of the last piece
  let last : FormatPiece := .conv n 0 (by decide)
  have htext : piecesText (ps ++ [last]) = (piecesText ps ++ 37 :: List.replicate n 35) ++ [0] := by
    simp [piecesText, last, FormatPiece.text]
  have hlen : (piecesText (ps ++ [last])).length
      = (piecesText ps ++ 37 :: List.replicate n 35).length + 1 := by
    rw [htext, List.length_append, List.length_singleton]
  have hstart : ∀ q ∈ ps ++ [last], q.text.head? ≠ some 0 := by
    intro q hq
    rcases List.mem_append.1 hq with hq | hq
    · exact head?_text_ne (fun c hc => hs c (List.mem_append_left _ hc)) q hq
    · rw [List.mem_singleton.1 hq]
      simp [last, FormatPiece.text]
  obtain ⟨q, hrun, hscan⟩ := printf_pieces (k := k) (htext ▸ hformat.textAt) hstart
    (by omega : (piecesText (ps ++ [last])).length + 33 ≤ fuel)
  rw [h] at hrun
  have hload := Printf.load_subset_loop _ hrun.symm (List.mem_append_right q.loads List.mem_cons_self)
  rwa [hscan.buf, Nat.zero_add, hlen] at hload

/-- **`printf` stays inside its format exactly if this does not end inside a conversion**, in `%` with any
    number of `#`s behind it: then it ends, loads the format up to its NUL, loads one argument for each
    conversion that has one, and returns the length. -/
theorem printf_keeps_format_iff (s : List UInt8) (hs : ∀ c ∈ s, c ≠ 0) (call : PrintfCall)
    (hformat : StringAt call.format 0 s) (k : Kernel) :
    (∃ n, ∀ fuel, n ≤ fuel → ∃ p, printf fuel call k = some p ∧ FormatKept s p) ↔ ¬ CutOff s := by
  constructor
  · rintro ⟨n, hall⟩ hcut
    obtain ⟨p, hp, hkept⟩ := hall (n + (s.length + 34)) (Nat.le_add_right n _)
    have hload := hkept.loads _ (hcut.loads_behind hs hformat (Nat.le_add_left _ n) hp)
    exact absurd hload (Nat.not_succ_le_self _)
  · intro hnot
    obtain ⟨ps, ⟨-, rfl⟩ | ⟨hcut, -⟩⟩ := exists_pieces s
    · refine ⟨(piecesText ps).length + 33, fun fuel hfuel => ?_⟩
      obtain ⟨p, hp, hkept, -⟩ := printf_piecesText (k := k) hs hformat hfuel
      exact ⟨p, hp, hkept⟩
    · exact absurd hcut hnot

end Calls

instance : DecidablePred CutOff := fun s => inferInstanceAs (Decidable (s.foldl inConversion false = true))

/-- A call with one value for all arguments, and memory that is zero behind the format. -/
def sampleCall (format : List UInt8) (arg : UInt32) : PrintfCall :=
  ⟨fun i => format.getD i 0, fun _ => arg, fun _ => [], fun _ _ => 0⟩

theorem stringAt_sampleCall (format : List UInt8) (arg : UInt32) :
    StringAt (sampleCall format arg).format 0 format := by
  refine ⟨fun j hj => ?_, ?_⟩
  · simp [sampleCall, hj]
  · simp [sampleCall]

/-- The format `"%#x %s\n"` is not cut off. -/
theorem printf_keeps_format_hex :
    ∃ n, ∀ fuel, n ≤ fuel → ∃ p, printf fuel (sampleCall [37, 35, 120, 32, 37, 115, 10] 255) sampleShell
      = some p ∧ FormatKept [37, 35, 120, 32, 37, 115, 10] p :=
  (printf_keeps_format_iff [37, 35, 120, 32, 37, 115, 10] (by simp) _ (stringAt_sampleCall _ _)
    sampleShell).2 (by decide)

/-- The format `"%"`: the byte behind the NUL is loaded, and the value is 2. -/
theorem printf_percent_leaves_format :
    (∃ p, printf 2 (sampleCall [37] 0) sampleShell = some p ∧ p.loads = [0, 0, 1, 2] ∧ p.ret = 2)
    ∧ ¬ ∃ n, ∀ fuel, n ≤ fuel → ∃ p, printf fuel (sampleCall [37] 0) sampleShell = some p
        ∧ FormatKept [37] p := by
  refine ⟨⟨_, rfl, rfl, rfl⟩, fun ⟨n, hall⟩ => ?_⟩
  obtain ⟨p, hp, hkept⟩ := hall (n + 35) (Nat.le_add_right n 35)
  have hcut : CutOff [37] := by decide
  have hload := hcut.loads_behind (by simp) (stringAt_sampleCall [37] 0) (Nat.le_add_left 35 n) hp
  exact absurd (hkept.loads _ hload) (by decide)

/-! ## Numbers in formats -/

/-- `%x`, `%#x`, `%u` and `%d`. -/
def FormatPiece.hex : FormatPiece := .conv 0 120 (by decide)
def FormatPiece.alternateHex : FormatPiece := .conv 1 120 (by decide)
def FormatPiece.unsigned : FormatPiece := .conv 0 117 (by decide)
def FormatPiece.signed : FormatPiece := .conv 0 100 (by decide)

/-- **Numbers are printed exactly.** `itoa` leaves the numeral of every 32-bit value in every base from 2 to
    36, in at most 33 bytes with the NUL, and different values have different ones. In every format, `%x`
    and `%u` print the value without sign, `%#x` prints it in eight digits and `%d` with its sign, and
    nothing is stored outside a `conv_buf`. -/
theorem numbers_exact (v : UInt32) (r : Nat) (h2 : 2 ≤ r) (h36 : r ≤ 36) (a : TracedArray UInt8)
    (buf fuel : Nat) (hfuel : 32 ≤ fuel) :
    (∃ b, itoaAt fuel v a buf (Int32.ofNat r) = some b ∧ StringAt b.mem buf (itoaText r v.toNat)
      ∧ a.WrittenIn b buf (buf + 33))
    ∧ IsNumeral r v.toNat (itoaText r v.toNat) ∧ (itoaText r v.toNat).length + 1 ≤ 33
    ∧ (∀ w : UInt32, itoaText r w.toNat = itoaText r v.toNat → w = v)
    ∧ (∀ ps : List FormatPiece, (∀ c ∈ piecesText ps, c ≠ 0) →
        ∀ (call : PrintfCall) (k : Kernel), StringAt call.format 0 (piecesText ps) →
        ∀ fuel, (piecesText ps).length + 33 ≤ fuel →
        ∃ p, printf fuel call k = some p ∧ p.kernel = k.puts (formatText call 0 ps)
          ∧ ∀ b ∈ p.convBufs, ∀ i ∈ b.2, i < b.1)
    ∧ ∀ (call : PrintfCall) (w : UInt32),
        FormatPiece.hex.printed call w = itoaText 16 w.toNat
        ∧ FormatPiece.unsigned.printed call w = itoaText 10 w.toNat
        ∧ (FormatPiece.alternateHex.printed call w).length = 8
        ∧ (∀ c ∈ FormatPiece.alternateHex.printed call w, ∃ d, d < 16 ∧ c = digitOf d)
        ∧ readNumeral digitValue 16 (FormatPiece.alternateHex.printed call w) = w.toNat
        ∧ FormatPiece.signed.printed call w = signedText w.toInt32.toInt
        ∧ readSigned (FormatPiece.signed.printed call w) = w.toInt32.toInt := by
  have hlen := length_itoaText_le h2 v
  refine ⟨?_, isNumeral_itoaText h2 h36 v.toNat, by omega, fun w hw => ?_, ?_, fun call w => ?_⟩
  · obtain ⟨b, hb, hstr, hin⟩ := itoaAt_spec h2 h36 v a buf hfuel
    exact ⟨b, hb, hstr, hin.mono (Nat.le_refl _) (by omega)⟩
  · exact UInt32.toNat_inj.1 (itoaText_injective h2 h36 hw)
  · intro ps hps call k hformat fuel hfuel
    obtain ⟨p, hp, -, hprinted, hin⟩ := printf_piecesText (k := k) hps hformat hfuel
    exact ⟨p, hp, hprinted, hin⟩
  · exact ⟨rfl, rfl, length_paddedHex w, fun c hc => digits_paddedHex w hc, readNumeral_paddedHex w, rfl,
      readSigned_signedText _⟩

/-- The number 255 in base 16. -/
theorem numbers_exact_ff :
    ∃ b, itoaAt 32 255 (.fresh fun _ => 0) 0 (Int32.ofNat 16) = some b
      ∧ StringAt b.mem 0 (itoaText 16 (255 : UInt32).toNat)
      ∧ (TracedArray.fresh fun _ => 0).WrittenIn b 0 (0 + 33) :=
  (numbers_exact 255 16 (by decide) (by decide) (.fresh fun _ => 0) 0 32 (by decide)).1

/-- `"-2147483648"` -/
example : signedText (-2147483648) = [45, 50, 49, 52, 55, 52, 56, 51, 54, 52, 56] := by
  norm_num [signedText, numeral]
  decide

end UnixTerminal
