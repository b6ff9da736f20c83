import UnixTerminal.Programs.Cat
import UnixTerminal.Proofs.FileStream
import UnixTerminal.Proofs.ProgramRuns

set_option autoImplicit false

/-! # `cat` on the kernel

What `cat` prints of a file, for every file of a well-formed image: the pieces of 1024 bytes, each up to its
first NUL, where the piece from offset 4096 on is taken from the start of the file. Of a text file of at most
one block this is the file. -/

namespace UnixTerminal

/-! ## The text -/

/-- What a read of `n` bytes from `offset` delivers. -/
def FileSys.piece (fs : FileSys) (inode offset n : Nat) : List UInt8 :=
  ((fs.contents inode).drop (FileSys.deliveredFrom offset)).take (min n (fs.fileLength inode - offset))

/-- What `cat` prints of the piece number `j`. -/
def catPiece (fs : FileSys) (inode j : Nat) : List UInt8 := cstr (fs.piece inode (1024 * j) 1024)

/-- What `cat` prints of a file. -/
def catText (fs : FileSys) (inode : Nat) : List UInt8 :=
  (List.range ((fs.fileLength inode + 1023) / 1024)).flatMap (catPiece fs inode)

section Text

variable {fs : FileSys} {inode : Nat}

theorem length_piece (fs : FileSys) (inode offset n : Nat) :
    (fs.piece inode offset n).length = min n (fs.fileLength inode - offset) := by
  have hle := FileSys.deliveredFrom_le offset
  rw [FileSys.piece, List.length_take, List.length_drop, FileSys.length_contents]
  omega

/-- The pieces of a text file in front of offset 4096. -/
theorem flatMap_catPiece (hnul : ∀ c ∈ fs.contents inode, c ≠ 0) {m : Nat} (hm : m ≤ 4) :
    (List.range m).flatMap (catPiece fs inode) = (fs.contents inode).take (1024 * m) := by
  induction m with
  | zero => simp
  | succ m ih =>
      have hpiece : catPiece fs inode m = ((fs.contents inode).drop (1024 * m)).take 1024 := by
        have hfrom : FileSys.deliveredFrom (1024 * m) = 1024 * m := if_neg (by omega)
        rw [catPiece, FileSys.piece, hfrom, fs.take_min_drop_contents]
        exact cstr_of_no_nul (fun c hc => hnul c (List.mem_of_mem_drop (List.mem_of_mem_take hc)))
      rw [List.range_succ, List.flatMap_append, ih (by omega), List.flatMap_singleton, hpiece, Nat.mul_succ,
        List.take_add]

/-- **A text file of at most one block is printed as it is.** -/
theorem catText_eq_contents (hlen : fs.fileLength inode ≤ 4096) (hnul : ∀ c ∈ fs.contents inode, c ≠ 0) :
    catText fs inode = fs.contents inode := by
  rw [catText, flatMap_catPiece hnul (by omega), List.take_of_length_le]
  rw [FileSys.length_contents]
  omega

end Text

/-! ## Reads of a file -/

/-- Descriptor `fd` is open for the file of `inode`, at `offset`. -/
structure ReadsAt (fs : FileSys) (p : Pcb) (fd inode offset : Nat) : Prop where
  lo : 2 ≤ fd
  hi : fd < 8
  flags : (p.fdsArray fd).flags = fileFlag
  position : (p.fdsArray fd).filePosition.toNat = offset
  lookup : ∃ d, fs.readDentryByName (p.nameAt fd) = some d ∧ d.inode.toNat = inode

theorem OpenStream.readsAt {fs : FileSys} {p : Pcb} {fd : Nat} {s : Delivery} (h : OpenStream fs p fd s) :
    ReadsAt fs p fd s.inode s.delivered.length := by
  obtain ⟨d, hd, -, hinode⟩ := h.lookup
  exact ⟨h.lo, h.hi, h.flags, h.position, d, hd, hinode⟩

namespace ReadsAt

variable {fs : FileSys} (us : UserSpace) {k : Kernel}
  {fd inode offset : Nat}

/-- **A read** delivers a piece of the file and moves the position behind it. -/
theorem read (hk : k.Running) (h : ReadsAt fs k.callerPcb fd inode offset) (hgood : fs.GoodInode inode)
    (hle : offset ≤ fs.fileLength inode) (n : Nat) :
    ∃ k', (kernelCalls fs us).ece391Read fd n k
        = some (⟨((fs.piece inode offset n).length : Nat), 0, fs.piece inode offset n⟩, k') ∧
      k.Ran [] k' ∧ k'.dirReadIdxNew = k.dirReadIdxNew ∧
      ReadsAt fs k'.callerPcb fd inode (offset + (fs.piece inode offset n).length) := by
  have hflags : ((k.pcb k.currentPcb).fdsArray fd).flags = fileFlag := hk.currentPcb ▸ h.flags
  obtain ⟨d, hd, hinode⟩ := h.lookup
  -- `file_read` finds the file and reads the piece
  have hdata : fs.fileRead (k.callerPcb.nameAt fd) (k.callerPcb.fdsArray fd).filePosition.toNat n
      = (((fs.piece inode offset n).length : Int), fs.piece inode offset n) := by
    rw [FileSys.fileRead, hd]
    simp only [hinode, h.position]
    rcases hle.lt_or_eq with hlt | hend
    · rw [fs.readData_deliveredFrom hgood hlt, length_piece]
      rfl
    · have hword : offset = fs.inodeWord inode 0 := hend
      have hnil : fs.piece inode offset n = [] :=
        List.length_eq_zero_iff.1 (by rw [length_piece]; omega)
      rw [FileSys.readData, if_neg (Nat.not_le.2 hgood.lt), if_neg (Nat.not_lt.2 hword.le), if_pos hword, hnil]
      rfl
  have hfst : (k.fileReadSetup fs fd n).1
      = ⟨((fs.piece inode offset n).length : Nat), 0, fs.piece inode offset n⟩ := by
    rw [fileReadSetup_fst, hdata]
  have hread : (kernelCalls fs us).ece391Read fd n k = some (k.fileReadSetup fs fd n) := by
    have heq : k.read fs fd us.ptr n = some (k.fileReadSetup fs fd (n : Int).toNat) :=
      read_eq_fileReadSetup h.hi hflags us.ptr_ne (Int.natCast_nonneg n)
    rwa [Int.toNat_natCast] at heq
  refine ⟨(k.fileReadSetup fs fd n).2, hread.trans (by rw [← hfst]), ?_, rfl, h.lo, h.hi, ?_, ?_, d, ?_, hinode⟩
  · refine ⟨_, k.dirReadIdxNew, .setFds k.callerPcb h.lo _ ?_, rfl⟩
    exact id
  · rw [Kernel.fileReadSetup, Kernel.callerPcb_setPcb, Pcb.fdsArray_setFds, if_pos rfl]
    exact h.flags
  · have hbound : (k.callerPcb.fdsArray fd).filePosition.toNat + (fs.piece inode offset n).length < 2 ^ 32 := by
      have hlen := hgood.length_le
      rw [h.position, length_piece]
      omega
    rw [fdsArray_fileReadSetup, hfst, toNat_add_ofInt hbound, h.position]
  · rw [nameAt_fileReadSetup]
    exact hd

end ReadsAt

/-! ## The loop -/

section Loop

variable {fs : FileSys} (us : UserSpace) {k : Kernel}
  {fd inode offset : Nat}

/-- A pass of the loop inside the file. -/
theorem printPass_piece (hk : k.Running) (h : ReadsAt fs k.callerPcb fd inode offset)
    (hgood : fs.GoodInode inode) (hlt : offset < fs.fileLength inode) (buf : Nat → UInt8) :
    ∃ buf' k', printPass (kernelCalls fs us) catLoop fd (buf, k) = some (.inr (buf', k')) ∧
      k.Ran (cstr (fs.piece inode offset 1024)) k' ∧ k'.dirReadIdxNew = k.dirReadIdxNew ∧
      ReadsAt fs k'.callerPcb fd inode (min (offset + 1024) (fs.fileLength inode)) := by
  obtain ⟨k₁, hread, hran, hidx, hat⟩ := h.read us hk hgood hlt.le 1024
  have hlen := length_piece fs inode offset 1024
  generalize fs.piece inode offset 1024 = piece at hread hat hlen
  have hspan : piece.length ≤ us.span := by
    have := us.le_span
    omega
  have hwrite := Kernel.write_stdout fs us (hk.ran hran).flags
    (Transfer.store ⟨piece.length, 0, piece⟩ buf) hspan
  rw [memBytes_store] at hwrite
  refine ⟨Transfer.store ⟨piece.length, 0, piece⟩ buf, (cstr piece).foldl Kernel.emit k₁, ?_,
    hran.trans (.print k₁ _), ?_, ?_⟩
  · have hzero : ¬ ((piece.length : Int) = 0) := by omega
    have hfail : ¬ ((piece.length : Int) = -1) := by omega
    have hwritten : ¬ (((cstr piece).length : Int) = -1) := by omega
    simp only [printPass, catLoop]
    rw [show (1024 : Int) = ((1024 : Nat) : Int) from rfl, hread, Option.bind_some, if_neg hzero, if_neg hfail,
      hwrite, Option.map_some, if_neg hwritten]
  · rw [Kernel.dirReadIdxNew_foldl_emit, hidx]
  · rw [Kernel.callerPcb_foldl_emit]
    have hnext : min (offset + 1024) (fs.fileLength inode) = offset + piece.length := by omega
    rw [hnext]
    exact hat

/-- The rest of the file, from piece number `j` on. -/
theorem breaks_cat (hgood : fs.GoodInode inode) : ∀ (m j : Nat) {k : Kernel} (buf : Nat → UInt8),
    (fs.fileLength inode + 1023) / 1024 = j + m → k.Running →
    ReadsAt fs k.callerPcb fd inode (min (1024 * j) (fs.fileLength inode)) →
    ∃ k', Breaks (fun _ => printPass (kernelCalls fs us) catLoop fd) (buf, k) (0, k') ∧
      k.Ran ((List.range' j m).flatMap (catPiece fs inode)) k' ∧ k'.dirReadIdxNew = k.dirReadIdxNew := by
  intro m
  induction m with
  | zero =>
      intro j k buf hj hk h
      rw [Nat.min_eq_right (by omega)] at h
      obtain ⟨k', hread, hran, hidx, -⟩ := h.read us hk hgood le_rfl 1024
      have hnil : fs.piece inode (fs.fileLength inode) 1024 = [] :=
        List.length_eq_zero_iff.1 (by rw [length_piece]; omega)
      rw [hnil] at hread
      refine ⟨k', .here ?_, hran, hidx⟩
      simp only [printPass, catLoop]
      rw [show (1024 : Int) = ((1024 : Nat) : Int) from rfl, hread]
      exact yields_some _
  | succ m ih =>
      intro j k buf hj hk h
      rw [Nat.min_eq_left (by omega)] at h
      obtain ⟨buf', k₁, hpass, hran, hidx, hat⟩ :=
        printPass_piece us hk h hgood (by omega) buf
      obtain ⟨k', hrest, hran', hidx'⟩ := ih (j + 1) buf' (by omega) (hk.ran hran) hat
      refine ⟨k', .pass (hpass ▸ yields_some _) hrest, ?_, hidx'.trans hidx⟩
      rw [List.range'_succ, List.flatMap_cons]
      exact hran.trans hran'

end Loop

/-! ## The program -/

section Program

variable (fs : FileSys) (us : UserSpace) {k : Kernel}
  {args : List UInt8}

/-- `cat` up to its call of `open`: the arguments are in the buffer. -/
theorem cat_eq (hk : k.Fresh args) (buf : Nat → UInt8) :
    ∃ name buf', cstr name = args ∧ ∀ fuel, cat (kernelCalls fs us) buf k fuel =
      if (k.openFile fs name).1 = -1 then
        ((kernelCalls fs us).putLiteral fileNotFoundText (k.openFile fs name).2).map fun k => (2, k)
      else foreverRun (printPass (kernelCalls fs us) catLoop (k.openFile fs name).1) fuel
        (buf', (k.openFile fs name).2) := by
  have hspan : args.length < us.span := Nat.lt_of_lt_of_le hk.args.fits (by have := us.le_span; omega)
  refine ⟨memBytes us.span (Transfer.store ⟨0, 0, args ++ [0]⟩ buf), Transfer.store ⟨0, 0, args ++ [0]⟩ buf,
    cstr_memBytes_store 0 hk.args.ne_zero buf hspan, fun fuel => ?_⟩
  have hargs : k.getargs us.behind us.ptr 1024 = ⟨0, 0, args ++ [0]⟩ :=
    Kernel.getargs_of_hasArgs hk.args us.behind us.ptr_ne 1024
  simp only [cat, kernelCalls, hargs, Option.bind_some, ne_eq, not_true_eq_false, if_false]

variable {fs us}

theorem prints_notFound (hname : Unreserved args) (hmissing : fs.readDentryByName args = none) (buf : Nat → UInt8) :
    Prints (cat (kernelCalls fs us) buf) args fileNotFoundText 2 := by
  intro k hk
  obtain ⟨name, buf', hcstr, hcat⟩ := cat_eq fs us hk buf
  have heq : cstr name = cstr args := by rw [hcstr, cstr_of_no_nul hk.args.ne_zero]
  have hopen := k.openFile_missing (hname.congr heq) ((fs.readDentryByName_congr heq).trans hmissing)
  have htext : LiteralText fileNotFoundText := by constructor <;> simp [fileNotFoundText]
  have hput := Kernel.putLiteral_stdout fs us htext hk.flags
  refine ⟨fileNotFoundText.foldl Kernel.emit k, ⟨0, fun fuel _ => ?_⟩, .print k _, ?_⟩
  · rw [hcat, hopen, if_pos rfl, hput]
    rfl
  · rw [Kernel.dirReadIdxNew_foldl_emit, hk.listing]

theorem prints_file (hwf : fs.WellFormed) (hname : Unreserved args) {d : Dentry}
    (hd : fs.readDentryByName args = some d) (htype : d.fileType = fileType) (buf : Nat → UInt8) :
    Prints (cat (kernelCalls fs us) buf) args (catText fs d.inode.toNat) 0 := by
  intro k hk
  obtain ⟨name, buf', hcstr, hcat⟩ := cat_eq fs us hk buf
  have heq : cstr name = cstr args := by rw [hcstr, cstr_of_no_nul hk.args.ne_zero]
  have hfound := (fs.readDentryByName_congr heq).trans hd
  obtain ⟨q, hq, hedit, hopen⟩ := k.openFile_first hk.files (hname.congr heq) hfound (Or.inr htype)
  have hat := (OpenStream.of_openSlot hfound hq le_rfl (by decide) htype).readsAt
  have hran : k.Ran [] (k.edited q k.dirReadIdxNew) := .edit hedit
  rw [← k.callerPcb_edited q k.dirReadIdxNew] at hat
  obtain ⟨k', hbreaks, hran', hidx⟩ := breaks_cat us (hwf.goodInode hfound htype) _ 0 buf'
    (Nat.zero_add _).symm (hk.ran hran) (by rw [Nat.mul_zero, Nat.zero_min]; exact hat)
  refine ⟨k', ?_, ?_, ?_⟩
  · refine hbreaks.yields.congr (fun fuel => ?_)
    rw [hcat, hopen, if_neg (show ¬ (2 : Int) = -1 by decide)]
    rfl
  · rw [catText, List.range_eq_range']
    exact hran.trans hran'
  · rw [hidx]
    exact hk.listing

end Program

/-- **`cat` prints the file**, or that there is none. The text is the file itself where that is a text of at
    most one block. -/
theorem cat_prints (fs : FileSys) (hwf : fs.WellFormed) (us : UserSpace)
    (buf : Nat → UInt8) (args : List UInt8)
    (hname : Unreserved args) :
    (fs.readDentryByName args = none → Prints (cat (kernelCalls fs us) buf) args fileNotFoundText 2) ∧
    (∀ d, fs.readDentryByName args = some d → d.fileType = fileType →
      Prints (cat (kernelCalls fs us) buf) args (catText fs d.inode.toNat) 0) ∧
    ∀ inode, fs.fileLength inode ≤ 4096 → (∀ c ∈ fs.contents inode, c ≠ 0) →
      catText fs inode = fs.contents inode :=
  ⟨fun hmissing => prints_notFound hname hmissing buf, fun _ hd htype => prints_file hwf hname hd htype buf,
    fun _ => catText_eq_contents⟩

/-! ## An image with the program -/

/-- `"cat"` -/
def catName : List UInt8 := [99, 97, 116]

/-- The image of the examples with one more entry, the program `cat`. -/
def catFs : FileSys := fileInit (place 0 (wordBytes 5) <| place 320 (entryBytes catName 2 0) sampleImage)

theorem catFs_wellFormed : catFs.WellFormed := by
  have hnum : catFs.numDentries = 5 := by decide +kernel
  have hinodes : catFs.numInodes = 3 := by decide +kernel
  have hlen : ∀ i < 3, catFs.fileLength i ≤ 2 * 4096 := by decide +kernel
  have hblocks : ∀ i < 3, ∀ w < 2, w * 4096 < catFs.fileLength i →
      catFs.inodeWord i (1 + w) < catFs.numDataBlocks := by decide +kernel
  have hinode : ∀ i < 5, (catFs.myDentry i).inode.toNat < 3 := by decide +kernel
  have hname : ∀ i < 5, 1 ≤ (catFs.entryName i).length ∧ (catFs.entryName i).length ≤ 32 := by
    decide +kernel
  have hinj : ∀ i < 5, ∀ j < 5, catFs.entryName i = catFs.entryName j → i = j := by
    decide +kernel
  refine ⟨fun i hi _ => ?_, fun i hi => hname i (hnum ▸ hi),
    fun i j hi hj => hinj i (hnum ▸ hi) j (hnum ▸ hj)⟩
  have hlt := hinode i (hnum ▸ hi)
  exact FileSys.goodInode_of_blocks (hinodes ▸ hlt) (by decide) (hlen _ hlt) (hblocks _ hlt)

/-- The entry of the note. -/
def noteDentry : Dentry := (catFs.readDentryByName noteName).getD ⟨[], 0, 0⟩

theorem readDentryByName_note : catFs.readDentryByName noteName = some noteDentry := by
  have hsome : (catFs.readDentryByName noteName).isSome := by decide +kernel
  obtain ⟨d, hd⟩ := Option.isSome_iff_exists.1 hsome
  rw [noteDentry, hd]
  rfl

/-- `cat` prints the note, and says that there is no file `x`. -/
theorem cat_prints_note :
    Prints (cat (kernelCalls catFs sampleSpace) fun _ => 0) noteName [104, 105, 10] 0 ∧
      Prints (cat (kernelCalls catFs sampleSpace) fun _ => 0) [120] fileNotFoundText 2 := by
  have htext : catText catFs noteDentry.inode.toNat = [104, 105, 10] := by decide +kernel
  have hnote := (cat_prints catFs catFs_wellFormed sampleSpace (fun _ => 0) noteName
    (by decide)).2.1 noteDentry readDentryByName_note (by decide +kernel)
  rw [htext] at hnote
  have hmissing : catFs.readDentryByName [120] = none := Option.isNone_iff_eq_none.1 (by decide +kernel)
  exact ⟨hnote, (cat_prints catFs catFs_wellFormed sampleSpace (fun _ => 0) [120] (by decide)).1
    hmissing⟩

end UnixTerminal
