import UnixTerminal.Proofs.BlinkTicks
import UnixTerminal.Proofs.FrameRows

set_option autoImplicit false

/-! # The animation

`add_frames` with the tasklet: what `fish` shows after `n` ticks. Every cell of the screen with a character in
one of the frames shows the first frame and the second in turn, 15 ticks each, and no other byte of the screen
changes. This is for files whose lines have at most 80 characters, and with at most 800 lines: a longer line
runs into the next one, and from line 819 on the 16-bit location of a blink wraps. -/

namespace UnixTerminal

/-! ## The grid as a list of blinks -/

/-- The characters at a place of the grid. -/
def gridCell (rows : List (List (UInt8 × UInt8))) (row col : Nat) : Option (UInt8 × UInt8) :=
  rows[row]?.bind (·[col]?)

/-- The place of a blink, before it is cut down to 16 bits. -/
def framePlace (row col : Nat) : Nat := row * 80 + col + frameOffset

/-- The grid fits: its rows into the screen's, and its places into 16 bits. -/
structure FrameFits (rows : List (List (UInt8 × UInt8))) : Prop where
  cols : ∀ cells ∈ rows, cells.length ≤ 80
  rows : rows.length ≤ 800

section Grid

variable {user : BlinkStruct}

theorem mem_rowBlinks {cells : List (UInt8 × UInt8)} {row col : Nat} {b : BlinkStruct}
    (h : b ∈ rowBlinks user row col cells) :
    ∃ i c0 c1, cells[i]? = some (c0, c1) ∧ (c0 ≠ 32 ∨ c1 ≠ 32) ∧ b = frameBlink user row (col + i) c0 c1 := by
  induction cells generalizing col with
  | nil => exact absurd h List.not_mem_nil
  | cons cell cells ih =>
      obtain ⟨c0, c1⟩ := cell
      have hcases : ((c0 ≠ 32 ∨ c1 ≠ 32) ∧ b = frameBlink user row col c0 c1) ∨
          b ∈ rowBlinks user row (col + 1) cells := by
        rw [rowBlinks] at h
        split at h
        next hc => exact (List.mem_cons.1 h).imp_left (fun hb => ⟨hc, hb⟩)
        next => exact Or.inr h
      rcases hcases with ⟨hc, hb⟩ | h
      · exact ⟨0, c0, c1, rfl, hc, hb⟩
      · obtain ⟨i, d0, d1, hi, hd, hb⟩ := ih h
        exact ⟨i + 1, d0, d1, hi, hd, by rw [hb, Nat.add_assoc, Nat.add_comm 1]⟩

theorem mem_gridBlinks {rows : List (List (UInt8 × UInt8))} {row : Nat} {b : BlinkStruct}
    (h : b ∈ gridBlinks user row rows) :
    ∃ j i c0 c1, gridCell rows j i = some (c0, c1) ∧ (c0 ≠ 32 ∨ c1 ≠ 32) ∧
      b = frameBlink user (row + j) i c0 c1 := by
  induction rows generalizing row with
  | nil => exact absurd h List.not_mem_nil
  | cons cells rows ih =>
      rw [gridBlinks] at h
      rcases List.mem_append.1 h with h | h
      · obtain ⟨i, c0, c1, hi, hc, hb⟩ := mem_rowBlinks h
        rw [Nat.zero_add] at hb
        exact ⟨0, i, c0, c1, hi, hc, hb⟩
      · obtain ⟨j, i, c0, c1, hcell, hc, hb⟩ := ih h
        exact ⟨j + 1, i, c0, c1, hcell, hc, by rw [hb, Nat.add_assoc, Nat.add_comm 1]⟩

theorem mem_rowBlinks_of_cell (user : BlinkStruct) (row col : Nat) {cells : List (UInt8 × UInt8)} {i : Nat}
    {c0 c1 : UInt8} (hi : cells[i]? = some (c0, c1)) (hc : c0 ≠ 32 ∨ c1 ≠ 32) :
    frameBlink user row (col + i) c0 c1 ∈ rowBlinks user row col cells := by
  induction cells generalizing col i with
  | nil => exact absurd hi (by simp)
  | cons cell cells ih =>
      obtain ⟨d0, d1⟩ := cell
      rw [rowBlinks]
      cases i with
      | zero =>
          obtain ⟨rfl, rfl⟩ : d0 = c0 ∧ d1 = c1 := by simpa using hi
          rw [if_pos hc]
          exact List.mem_cons_self
      | succ i =>
          have hmem := ih (col + 1) hi
          rw [Nat.add_assoc, Nat.add_comm 1] at hmem
          split
          · exact List.mem_cons_of_mem _ hmem
          · exact hmem

theorem mem_gridBlinks_of_cell (user : BlinkStruct) (row : Nat) {rows : List (List (UInt8 × UInt8))}
    {j i : Nat} {c0 c1 : UInt8} (hcell : gridCell rows j i = some (c0, c1)) (hc : c0 ≠ 32 ∨ c1 ≠ 32) :
    frameBlink user (row + j) i c0 c1 ∈ gridBlinks user row rows := by
  induction rows generalizing row j with
  | nil => exact absurd hcell (by simp [gridCell])
  | cons cells rows ih =>
      rw [gridBlinks]
      cases j with
      | zero =>
          have hmem := mem_rowBlinks_of_cell user row 0 hcell hc
          rw [Nat.zero_add] at hmem
          exact List.mem_append_left _ hmem
      | succ j =>
          have hmem := ih (row + 1) hcell
          rw [Nat.add_assoc, Nat.add_comm 1] at hmem
          exact List.mem_append_right _ hmem

theorem toNat_location_frameBlink {row col : Nat} (hrow : row < 800) (hcol : col < 80) (c0 c1 : UInt8) :
    (frameBlink user row col c0 c1).location.toNat = framePlace row col := by
  refine UInt16.toNat_ofNat_of_lt' ?_
  rw [UInt16.size, frameOffset]
  omega

theorem getElem?_lt {α : Type} {l : List α} {i : Nat} {a : α} (h : l[i]? = some a) : i < l.length :=
  (List.getElem?_eq_some_iff.1 h).1

/-- The blinks come in the order of their locations. -/
theorem pairwise_rowBlinks (user : BlinkStruct) {cells : List (UInt8 × UInt8)} {row col : Nat}
    (hrow : row < 800) (hcol : col + cells.length ≤ 80) :
    (rowBlinks user row col cells).Pairwise (fun a b => a.location.toNat < b.location.toNat) := by
  induction cells generalizing col with
  | nil => exact List.Pairwise.nil
  | cons cell cells ih =>
      obtain ⟨c0, c1⟩ := cell
      rw [List.length_cons] at hcol
      have hrest := @ih (col + 1) (by omega)
      rw [rowBlinks]
      split
      next =>
        refine List.pairwise_cons.2 ⟨fun b hb => ?_, hrest⟩
        obtain ⟨i, d0, d1, hi, -, rfl⟩ := mem_rowBlinks hb
        have hlt := getElem?_lt hi
        rw [toNat_location_frameBlink hrow (by omega), toNat_location_frameBlink hrow (by omega), framePlace,
          framePlace]
        omega
      next => exact hrest

theorem pairwise_gridBlinks (user : BlinkStruct) {rows : List (List (UInt8 × UInt8))} {row : Nat}
    (hcols : ∀ cells ∈ rows, cells.length ≤ 80) (hrows : row + rows.length ≤ 800) :
    (gridBlinks user row rows).Pairwise (fun a b => a.location.toNat < b.location.toNat) := by
  induction rows generalizing row with
  | nil => exact List.Pairwise.nil
  | cons cells rows ih =>
      rw [List.length_cons] at hrows
      have hcells := hcols cells List.mem_cons_self
      have hrest : ∀ cells ∈ rows, cells.length ≤ 80 := fun c hc => hcols c (List.mem_cons_of_mem _ hc)
      refine List.pairwise_append.2 ⟨pairwise_rowBlinks user (by omega) (by omega), ih hrest (by omega),
        fun a ha b hb => ?_⟩
      obtain ⟨i, c0, c1, hi, -, rfl⟩ := mem_rowBlinks ha
      obtain ⟨j, i', d0, d1, hcell, -, rfl⟩ := mem_gridBlinks hb
      obtain ⟨cells', hcells', hi'⟩ := Option.bind_eq_some_iff.1 hcell
      have hlt := getElem?_lt hi
      have hlt' := getElem?_lt hi'
      have hcells' : j < rows.length ∧ cells'.length ≤ 80 :=
        ⟨getElem?_lt hcells', hrest _ (List.mem_of_getElem? hcells')⟩
      rw [toNat_location_frameBlink (by omega) (by omega), toNat_location_frameBlink (by omega) (by omega),
        framePlace, framePlace]
      omega

/-- The place of a cell of a grid that fits. -/
theorem FrameFits.location (user : BlinkStruct) {rows : List (List (UInt8 × UInt8))} (h : FrameFits rows)
    {j i : Nat} {c0 c1 : UInt8} (hcell : gridCell rows j i = some (c0, c1)) (d0 d1 : UInt8) :
    (frameBlink user j i d0 d1).location.toNat = framePlace j i := by
  obtain ⟨cells, hcells, hi⟩ := Option.bind_eq_some_iff.1 hcell
  have hj := getElem?_lt hcells
  have hcol := getElem?_lt hi
  have hcols := h.cols cells (List.mem_of_getElem? hcells)
  have hrows := h.rows
  exact toNat_location_frameBlink (by omega) (by omega) d0 d1

end Grid

/-! ## Adding them to the board -/

/-- The calls of `add_frames`. -/
def addCalls (blinks : List BlinkStruct) : List FishCall := blinks.map .mp1IoctlAdd

theorem Represents.addBlinks {f : Fish} {s : BlinkBoard} {nodes : List Nat} (h : Represents f s nodes)
    {blinks : List BlinkStruct} (hblinks : ∀ b ∈ blinks, b.location ≠ 0) :
    ∃ nodes', Represents (addBlinks f blinks) (s.run (addCalls blinks)).2 nodes' := by
  induction blinks generalizing f s nodes with
  | nil => exact ⟨nodes, h⟩
  | cons b blinks ih =>
      obtain ⟨nodes', -, hadd⟩ := h.add (hblinks b List.mem_cons_self)
      exact ih hadd (fun b' hb' => hblinks b' (List.mem_cons_of_mem b hb'))

/-- A board has room for a blink at a location of its own. -/
theorem length_lt_of_new {l : List Blink} {x : UInt16} (hl : (l.map Blink.location).Nodup)
    (hlt : ∀ a ∈ l, a.location.toNat < blinkSlots) (hx : x ∉ l.map Blink.location) (hxlt : x.toNat < blinkSlots) :
    l.length < blinkSlots := by
  have hinj := List.Nodup.map (f := UInt16.toNat) (fun x y => UInt16.toNat_inj.1) (List.nodup_cons.2 ⟨hx, hl⟩)
  have hrange : ∀ y ∈ (x :: l.map Blink.location).map UInt16.toNat, y ∈ List.range blinkSlots := by
    intro y hy
    obtain ⟨z, hz, rfl⟩ := List.mem_map.1 hy
    rcases List.mem_cons.1 hz with rfl | hz
    · exact List.mem_range.2 hxlt
    · obtain ⟨a, ha, rfl⟩ := List.mem_map.1 hz
      exact List.mem_range.2 (hlt a ha)
  have hle := (hinj.subperm hrange).length_le
  simpa [Nat.succ_le_iff] using hle

/-- The blinks that `mp1_ioctl_add` accepts, the last one first. -/
def acceptedBlinks (blinks : List BlinkStruct) : List Blink :=
  ((blinks.filter fun b => b.location.toNat < blinkSlots).map fun b => b.toBlink.fresh).reverse

theorem mem_acceptedBlinks {blinks : List BlinkStruct} {a : Blink} :
    a ∈ acceptedBlinks blinks ↔ ∃ b ∈ blinks, b.location.toNat < blinkSlots ∧ a = b.toBlink.fresh := by
  simp only [acceptedBlinks, List.mem_reverse, List.mem_map, List.mem_filter, decide_eq_true_eq, and_assoc,
    eq_comm (a := a)]

theorem location_acceptedBlinks_sublist (blinks : List BlinkStruct) :
    ((acceptedBlinks blinks).map Blink.location).Sublist (blinks.map (·.location)).reverse := by
  rw [acceptedBlinks, ← List.map_reverse, ← List.map_reverse, List.map_map, ← List.filter_reverse]
  exact List.filter_sublist.map _

/-- Blinks at locations of their own are all accepted, but for those behind the last cell. -/
theorem blinks_run_addCalls (blinks : List BlinkStruct) (s : BlinkBoard)
    (hdistinct : (s.blinks.map Blink.location ++ blinks.map (·.location)).Nodup)
    (hs : ∀ a ∈ s.blinks, a.location.toNat < blinkSlots) :
    (s.run (addCalls blinks)).2.blinks = acceptedBlinks blinks ++ s.blinks := by
  induction blinks generalizing s with
  | nil => rfl
  | cons b blinks ih =>
      rw [List.map_cons, List.nodup_middle] at hdistinct
      obtain ⟨hnew, hrest⟩ := List.nodup_cons.1 hdistinct
      change (BlinkBoard.run (addCalls blinks) (s.call (.mp1IoctlAdd b)).2).2.blinks = _
      by_cases hb : b.location.toNat < blinkSlots
      · have hroom := length_lt_of_new (List.nodup_append.1 hrest).1 hs
          (fun hmem => hnew (List.mem_append_left _ hmem)) hb
        have hcall : (s.call (.mp1IoctlAdd b)).2.blinks = b.toBlink.fresh :: s.blinks := by
          rw [BlinkBoard.call, if_pos ⟨hb, hroom⟩]
        rw [ih _ (by rw [hcall]; exact hdistinct) (fun a ha => ?_), hcall]
        · simp [acceptedBlinks, hb]
        · rcases List.mem_cons.1 (hcall ▸ ha) with rfl | ha
          · exact hb
          · exact hs a ha
      · have hcall : (s.call (.mp1IoctlAdd b)).2 = s := by
          rw [BlinkBoard.call, if_neg (fun h => hb h.1)]
        rw [hcall, ih s hrest hs]
        simp [acceptedBlinks, hb]

theorem tickCount_replicate (n : Nat) : tickCount (List.replicate n .mp1RtcTasklet) = n := by
  induction n with
  | zero => rfl
  | succ n ih => rw [List.replicate_succ, tickCount, ih]

/-- A blink behind others, at a location of its own, is accepted, and blinks on. -/
theorem blinking_run_addCalls {before after : List BlinkStruct} {b : BlinkStruct} (vmem : Nat → UInt8)
    (hdistinct : ((before ++ b :: after).map (·.location)).Nodup) (hb : b.location.toNat < blinkSlots) (n : Nat) :
    Blinking b.toBlink n (BlinkBoard.run (addCalls (before ++ b :: after) ++ List.replicate n .mp1RtcTasklet)
      ⟨[], vmem⟩).2 := by
  rw [List.map_append, List.map_cons] at hdistinct
  obtain ⟨hbefore, hafter, hdisjoint⟩ := List.nodup_append.1 hdistinct
  obtain ⟨hb_after, -⟩ := List.nodup_cons.1 hafter
  -- what is on the board is at other locations
  have hblinks := blinks_run_addCalls before ⟨[], vmem⟩ hbefore (fun a ha => absurd ha List.not_mem_nil)
  rw [List.append_nil] at hblinks
  have hsub := location_acceptedBlinks_sublist before
  have hnew : b.location ∉ (BlinkBoard.run (addCalls before) ⟨[], vmem⟩).2.blinks.map Blink.location := by
    rw [hblinks]
    intro hmem
    exact hdisjoint _ (List.mem_reverse.1 (hsub.subset hmem)) _ List.mem_cons_self rfl
  have hroom : (BlinkBoard.run (addCalls before) ⟨[], vmem⟩).2.blinks.length < blinkSlots := by
    rw [hblinks] at hnew ⊢
    refine length_lt_of_new (hsub.nodup (List.nodup_reverse.2 hbefore)) (fun a ha => ?_) hnew hb
    obtain ⟨b', -, hlt, rfl⟩ := mem_acceptedBlinks.1 ha
    exact hlt
  have hstart := blinking_add hb hroom (fun a ha heq => hnew (List.mem_map.2 ⟨a, ha, heq⟩))
  have hcalls : ∀ c ∈ addCalls after ++ List.replicate n .mp1RtcTasklet, c.Spares b.location := by
    intro c hc
    rcases List.mem_append.1 hc with hc | hc
    · obtain ⟨a, ha, rfl⟩ := List.mem_map.1 hc
      exact fun heq => hb_after (List.mem_map.2 ⟨a, ha, heq⟩)
    · obtain rfl := List.eq_of_mem_replicate hc
      trivial
  have hrun := hstart.run hcalls
  have hcount : ∀ l : List BlinkStruct, tickCount (addCalls l ++ List.replicate n .mp1RtcTasklet) = n := by
    intro l
    induction l with
    | nil => exact tickCount_replicate n
    | cons a l ih => exact ih
  rw [hcount, Nat.zero_add] at hrun
  rw [addCalls, List.map_append, List.append_assoc, BlinkBoard.run_append]
  exact hrun

theorem foldl_pokeTick_of_ne {o : Nat} {l : List Blink} (h : ∀ a ∈ l, a.offset ≠ o) (vmem : Nat → UInt8) :
    l.foldl pokeTick vmem o = vmem o := by
  induction l generalizing vmem with
  | nil => rfl
  | cons a l ih =>
      rw [List.foldl_cons, ih (fun b hb => h b (List.mem_cons_of_mem a hb)), pokeTick]
      cases a.tick.2 with
      | none => rfl
      | some c => exact Function.update_of_ne (h a List.mem_cons_self).symm _ _

/-- A byte that belongs to none of the blinks stays. -/
theorem vmem_run_of_ne {o : Nat} (blinks : List BlinkStruct) (n : Nat) (s : BlinkBoard)
    (hs : ∀ a ∈ s.blinks, a.offset ≠ o)
    (hblinks : ∀ b ∈ blinks, b.location.toNat < blinkSlots → b.toBlink.offset ≠ o) :
    (s.run (addCalls blinks ++ List.replicate n .mp1RtcTasklet)).2.vmem o = s.vmem o := by
  induction blinks generalizing s with
  | cons b blinks ih =>
      have hrest : ∀ b' ∈ blinks, b'.location.toNat < blinkSlots → b'.toBlink.offset ≠ o :=
        fun b' hb' => hblinks b' (List.mem_cons_of_mem b hb')
      have hstep : (∀ a ∈ (s.call (.mp1IoctlAdd b)).2.blinks, a.offset ≠ o) ∧
          (s.call (.mp1IoctlAdd b)).2.vmem o = s.vmem o := by
        simp only [BlinkBoard.call]
        split
        next hok =>
          have hne := hblinks b List.mem_cons_self hok.1
          refine ⟨fun a ha => ?_, Function.update_of_ne hne.symm _ _⟩
          rcases List.mem_cons.1 ha with rfl | ha
          · exact hne
          · exact hs a ha
        next => exact ⟨hs, rfl⟩
      exact (ih _ hstep.1 hrest).trans hstep.2
  | nil =>
      induction n generalizing s with
      | zero => rfl
      | succ n ih =>
          refine (ih (s.call .mp1RtcTasklet).2 (fun a ha => ?_)).trans (foldl_pokeTick_of_ne hs s.vmem)
          obtain ⟨b, hb, rfl⟩ := List.mem_map.1 ha
          rw [Blink.offset, Blink.location_tick]
          exact hs b hb

/-! ## `fish` -/

theorem eq_of_getElem?_zipWithAll {α β γ : Type} {f : Option α → Option β → γ} {l : List α} {l' : List β}
    {i : Nat} {c : γ} (h : (List.zipWithAll f l l')[i]? = some c) : c = f l[i]? l'[i]? := by
  rw [List.getElem?_zipWithAll] at h
  split at h
  · exact absurd h (by simp)
  · exact (Option.some_inj.1 h).symm

theorem ne_newline_of_line {l : List UInt8} (hl : 10 ∉ l) (i : Nat) : l[i]?.getD 32 ≠ 10 := by
  cases hi : l[i]? with
  | none => simp
  | some c =>
      intro heq
      exact hl (heq ▸ List.mem_of_getElem? hi)

theorem not_mem_getD_splitOn (file : List UInt8) (i : Nat) : 10 ∉ ((file.splitOn 10)[i]?.getD []) := by
  cases hi : (file.splitOn 10)[i]? with
  | none => simp
  | some l => exact not_mem_of_mem_splitOn (List.mem_of_getElem? hi)

/-- The characters in a frame are no newlines. -/
theorem ne_newline_of_gridCell {file0 file1 : List UInt8} {row col : Nat} {c0 c1 : UInt8}
    (h : gridCell (frameRows file0 file1) row col = some (c0, c1)) : c0 ≠ 10 ∧ c1 ≠ 10 := by
  obtain ⟨cells, hcells, hcell⟩ := Option.bind_eq_some_iff.1 h
  have hline := eq_of_getElem?_zipWithAll hcells
  rw [hline] at hcell
  have hpair := eq_of_getElem?_zipWithAll hcell
  obtain ⟨rfl, rfl⟩ := Prod.mk.inj hpair
  exact ⟨ne_newline_of_line (not_mem_getD_splitOn _ _) _, ne_newline_of_line (not_mem_getD_splitOn _ _) _⟩

/-- The blinks of a grid that fits are at different locations, and none is at location 0. -/
theorem FrameFits.frameBlinks {file0 file1 : List UInt8} (hfits : FrameFits (frameRows file0 file1))
    (user : BlinkStruct) :
    (∀ b ∈ frameBlinks user file0 file1, b.location ≠ 0) ∧
      ((frameBlinks user file0 file1).map (·.location)).Nodup := by
  refine ⟨fun b hb hzero => ?_, ?_⟩
  · obtain ⟨row, col, c0, c1, hgrid, -, rfl⟩ := mem_gridBlinks hb
    have hloc := FrameFits.location (frameUser user) hfits hgrid c0 c1
    rw [← Nat.zero_add row, hzero, framePlace, frameOffset, UInt16.toNat_zero] at hloc
    omega
  · have hrows : 0 + (frameRows file0 file1).length ≤ 800 := by
      rw [Nat.zero_add]
      exact hfits.rows
    have hpairwise := pairwise_gridBlinks (frameUser user) hfits.cols hrows
    refine List.pairwise_map.2 (hpairwise.imp (fun hlt heq => ?_))
    rw [heq] at hlt
    exact Nat.lt_irrefl _ hlt

/-- A cell of the screen with a character in one of the frames. -/
structure ShownCell (file0 file1 : List UInt8) (row col : Nat) (c0 c1 : UInt8) : Prop where
  cell : gridCell (frameRows file0 file1) row col = some (c0, c1)
  shown : c0 ≠ 32 ∨ c1 ≠ 32
  onScreen : framePlace row col < blinkSlots

/-- The blinks of the two files that `mp1_ioctl_add` accepts. -/
theorem mem_accepted_frameBlinks {file0 file1 : List UInt8} (hfits : FrameFits (frameRows file0 file1))
    (user : BlinkStruct) (b : Blink) :
    b ∈ acceptedBlinks (frameBlinks user file0 file1) ↔ ∃ row col c0 c1, ShownCell file0 file1 row col c0 c1 ∧
      b = (frameBlink (frameUser user) row col c0 c1).fresh := by
  rw [mem_acceptedBlinks]
  constructor
  · rintro ⟨b', hb', hlt, rfl⟩
    obtain ⟨row, col, c0, c1, hgrid, hc, rfl⟩ := mem_gridBlinks hb'
    rw [Nat.zero_add] at hlt ⊢
    exact ⟨row, col, c0, c1, ⟨hgrid, hc, FrameFits.location _ hfits hgrid c0 c1 ▸ hlt⟩, rfl⟩
  · rintro ⟨row, col, c0, c1, ⟨hgrid, hc, hplace⟩, rfl⟩
    have hmem := mem_gridBlinks_of_cell (frameUser user) 0 hgrid hc
    rw [Nat.zero_add] at hmem
    exact ⟨_, hmem, (FrameFits.location _ hfits hgrid c0 c1).symm ▸ hplace, rfl⟩

/-- **The animation.** The two frames are read from files that fit; then the tasklet runs `n` times. Both end.
    The list has one blink for each cell of the screen with a character in one of the frames, and no others.
    Such a cell shows the character of the first frame in the first 15 of every 30 ticks, and that of the
    second in the others. Every other byte is as it was. -/
theorem fish_animation {σ : Type} {calls : GrepCalls σ} {Open : (Nat → Option (List UInt8)) → σ → Prop}
    (hs : Streams calls Open) {f0 f1 : Nat → UInt8} {file0 file1 : List UInt8} {fd0 fd1 : Nat}
    {files : Nat → Option (List UInt8)} {sys sys₀ sys₁ : σ}
    (hopen₀ : calls.ece391Open f0 sys = (some fd0, sys₀))
    (hopen₁ : calls.ece391Open f1 sys₀ = (some fd1, sys₁)) (hne : fd0 ≠ fd1) (ho : Open files sys₁)
    (hfile0 : files fd0 = some file0) (hfile1 : files fd1 = some file1)
    (hfits : FrameFits (frameRows file0 file1)) (user : BlinkStruct) (vmem : Nat → UInt8) (n : Nat) :
    ∃ sys' f board nodes replies g,
      Yields (addFrames calls f0 f1 user (Fish.start vmem) sys) (.added f sys') ∧
      Represents f board nodes ∧ (board.blinks.map Blink.location).Nodup ∧
      (∀ b, b ∈ board.blinks ↔ ∃ row col c0 c1, ShownCell file0 file1 row col c0 c1 ∧
        b = (frameBlink (frameUser user) row col c0 c1).fresh) ∧
      Yields (fun fuel => Fish.run fuel (List.replicate n .mp1RtcTasklet) f) (replies, g) ∧
      (∀ row col c0 c1, ShownCell file0 file1 row col c0 c1 →
        g.vmem (2 * framePlace row col) = if n % 30 < 15 then c0 else c1) ∧
      ∀ o, (∀ row col c0 c1, ShownCell file0 file1 row col c0 c1 → o ≠ 2 * framePlace row col) →
        g.vmem o = vmem o := by
  obtain ⟨sys', hadd⟩ := exists_yields_addFrames hs hopen₀ hopen₁ hne ho hfile0 hfile1 user (Fish.start vmem)
  obtain ⟨hlocated, hdistinct⟩ := hfits.frameBlinks user
  obtain ⟨nodes, hrep⟩ := (represents_start vmem).addBlinks hlocated
  obtain ⟨g, nodes', hrun, hrep'⟩ := Represents.run (fun c (hc : c ∈ List.replicate n .mp1RtcTasklet) =>
    by rw [List.eq_of_mem_replicate hc]; trivial) hrep
  have hblinks := blinks_run_addCalls (frameBlinks user file0 file1) ⟨[], vmem⟩ hdistinct
    (fun a ha => absurd ha List.not_mem_nil)
  rw [List.append_nil] at hblinks
  have hboard : ∀ o, g.vmem o = (BlinkBoard.run (addCalls (frameBlinks user file0 file1)
      ++ List.replicate n .mp1RtcTasklet) ⟨[], vmem⟩).2.vmem o := by
    intro o
    rw [BlinkBoard.run_append, ← hrep'.vmem]
  refine ⟨sys', _, _, nodes, _, g, hadd, hrep, ?_, fun b => ?_, hrun, ?_, ?_⟩
  · rw [hblinks]
    exact (location_acceptedBlinks_sublist _).nodup (List.nodup_reverse.2 hdistinct)
  · rw [hblinks]
    exact mem_accepted_frameBlinks hfits user b
  · rintro row col c0 c1 ⟨hgrid, hc, hplace⟩
    obtain ⟨hc0, hc1⟩ := ne_newline_of_gridCell hgrid
    have hmem := mem_gridBlinks_of_cell (frameUser user) 0 hgrid hc
    rw [Nat.zero_add] at hmem
    obtain ⟨before, after, hsplit⟩ := List.append_of_mem hmem
    have hsplit : frameBlinks user file0 file1 = before ++ frameBlink (frameUser user) row col c0 c1 :: after := hsplit
    have hloc := FrameFits.location (frameUser user) hfits hgrid c0 c1
    have hblinking := blinking_run_addCalls vmem (hsplit ▸ hdistinct) (hloc ▸ hplace) n
    have hshown := hblinking.shown
    rw [← hsplit, Blink.offset, hloc] at hshown
    refine (hboard _).trans (hshown.trans ?_)
    simp only [Blink.charAt, frameBlink, Blink.period, shownChar, if_neg hc0, if_neg hc1]
    rfl
  · intro o ho
    refine (hboard o).trans (vmem_run_of_ne _ n _ (fun a ha => absurd ha List.not_mem_nil) ?_)
    intro b hb hlt heq
    obtain ⟨row, col, c0, c1, hcell, hfresh⟩ := (mem_accepted_frameBlinks hfits user b.toBlink.fresh).1
      (mem_acceptedBlinks.2 ⟨b, hb, hlt, rfl⟩)
    have hloc : b.toBlink.fresh.location = (frameBlink (frameUser user) row col c0 c1).fresh.location :=
      congrArg Blink.location hfresh
    change b.location = (frameBlink (frameUser user) row col c0 c1).location at hloc
    rw [Blink.offset, hloc, FrameFits.location _ hfits hcell.cell] at heq
    exact ho row col c0 c1 hcell heq.symm

/-! ### An example -/

/-- A system of open files, where a name starts with its descriptor. -/
def openFiles (contents : Nat → List UInt8) : GrepCalls (Nat → Option (List UInt8)) where
  ece391Open fname files :=
    (some (fname 0).toNat, Function.update files (fname 0).toNat (some (contents (fname 0).toNat)))
  ece391Read fd n files :=
    match files fd with
    | none => (none, files)
    | some text => (some (text.take n), Function.update files fd (some (text.drop n)))
  ece391Close fd files := (true, Function.update files fd none)

theorem openFiles_streams (contents : Nat → List UInt8) :
    Streams (openFiles contents) (fun files sys => files = sys) := by
  refine ⟨?_, ?_⟩
  · rintro files _ fd text n rfl htext
    exact ⟨_, by simp only [openFiles, htext], rfl⟩
  · rintro files _ fd rfl
    rfl

/-- `ab` over ` c`, and `x` over a blank line. -/
def sampleFrames : Nat → List UInt8
  | 2 => [97, 98, 10, 32, 99]
  | _ => [120, 10, 32]

/-- The two files, opened in their order. -/
def framesOpened : Nat → Option (List UInt8) :=
  Function.update (Function.update (fun _ => none) 2 (some (sampleFrames 2))) 3 (some (sampleFrames 3))

/-- After 20 ticks the second frame is there: `x`, and nothing below it. -/
theorem fish_animation_sample :
    ∃ sys' f board nodes replies g,
      Yields (addFrames (openFiles sampleFrames) (fun _ => 2) (fun _ => 3) (sampleBlink 0) (Fish.start fun _ => 0)
        fun _ => none) (.added f sys') ∧
      Represents f board nodes ∧ (board.blinks.map Blink.location).Nodup ∧
      (frameBlink (frameUser (sampleBlink 0)) 0 0 97 120).fresh ∈ board.blinks ∧
      Yields (fun fuel => Fish.run fuel (List.replicate 20 .mp1RtcTasklet) f) (replies, g) ∧
      g.vmem 80 = 120 ∧ g.vmem 242 = 32 ∧ g.vmem 81 = 0 := by
  have hopen₀ : (openFiles sampleFrames).ece391Open (fun _ => 2) (fun _ => none)
      = (some 2, Function.update (fun _ => none) 2 (some (sampleFrames 2))) := rfl
  have hopen₁ : (openFiles sampleFrames).ece391Open (fun _ => 3)
      (Function.update (fun _ => none) 2 (some (sampleFrames 2))) = (some 3, framesOpened) := rfl
  have hfiles : framesOpened 2 = some (sampleFrames 2) ∧ framesOpened 3 = some (sampleFrames 3) := ⟨rfl, rfl⟩
  obtain ⟨sys', f, board, nodes, replies, g, hadd, hrep, hdistinct, hblinks, hrun, hshown, hkept⟩ :=
    fish_animation (openFiles_streams sampleFrames) hopen₀ hopen₁ (by decide) rfl hfiles.1
      hfiles.2 ⟨by decide, by decide⟩ (sampleBlink 0) (fun _ => 0) 20
  have hcell₀ : ShownCell (sampleFrames 2) (sampleFrames 3) 0 0 97 120 := ⟨by decide, by decide, by decide⟩
  have hcell₁ : ShownCell (sampleFrames 2) (sampleFrames 3) 1 1 99 32 := ⟨by decide, by decide, by decide⟩
  refine ⟨sys', f, board, nodes, replies, g, hadd, hrep, hdistinct, (hblinks _).2 ⟨0, 0, 97, 120, hcell₀, rfl⟩,
    hrun, hshown 0 0 97 120 hcell₀, hshown 1 1 99 32 hcell₁, ?_⟩
  refine hkept 81 (fun row col c0 c1 _ heq => ?_)
  omega

end UnixTerminal
