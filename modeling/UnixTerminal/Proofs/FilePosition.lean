import UnixTerminal.Proofs.FileStream
import UnixTerminal.Proofs.ReadData

set_option autoImplicit false

/-! # The file position

`file_read_setup` adds the value that `file_read` returned to the position of the descriptor, and this
value is -1 when the read failed. The position is right as long as no read fails: the name is in the
directory, its inode and the position are possible, and the blocks that are copied from exist. It then
moves by the number of bytes read and stays within the file. -/

namespace UnixTerminal

namespace FileSys

variable (fs : FileSys)

/-! ## When `file_read` succeeds -/

/-- A read through a name: the name is in the directory, and the read of its file finds everything. -/
def FileReadOk (fname : List UInt8) (offset length : Nat) : Prop :=
  ∃ d, fs.readDentryByName fname = some d ∧ fs.ReadDataOk d.inode.toNat offset length

/-- What `file_read` returns, and where the position stands behind it. -/
theorem fileRead_ret (fname : List UInt8) (offset length : Nat) :
    (fs.FileReadOk fname offset length → ∃ n : Nat, (fs.fileRead fname offset length).1 = n ∧
      ∀ d, fs.readDentryByName fname = some d → offset + n ≤ fs.fileLength d.inode.toNat) ∧
    (¬ fs.FileReadOk fname offset length → (fs.fileRead fname offset length).1 = -1) := by
  constructor
  · rintro ⟨d, hd, hok⟩
    refine ⟨min length (fs.fileLength d.inode.toNat - offset), ?_, fun d' hd' => ?_⟩
    · rw [fileRead, hd]
      exact (fs.readData_ret _ _ _).1 hok
    · obtain rfl : d = d' := Option.some.inj (hd.symm.trans hd')
      have hle := hok.offset_le
      omega
  · intro hnot
    rw [fileRead]
    cases hd : fs.readDentryByName fname with
    | none => rfl
    | some d => exact (fs.readData_ret _ _ _).2 (fun hok => hnot ⟨d, hd, hok⟩)

end FileSys

/-! ## One read -/

/-- The position of descriptor `fd` of the caller. -/
def Kernel.position (k : Kernel) (fd : Nat) : UInt32 := (k.callerPcb.fdsArray fd).filePosition

/-- A read that failed leaves the position, and one that returned `r` moves it by `r`. -/
def PositionExact (k : Kernel) (fd : Nat) (r : Transfer × Kernel) : Prop :=
  (r.1.ret = -1 → r.2.position fd = k.position fd) ∧
  (0 ≤ r.1.ret → ((r.2.position fd).toNat : Int) = (k.position fd).toNat + r.1.ret)

/-- `read` takes descriptor `fd` to the file driver. -/
def ReadsFile (k : Kernel) (fd : Nat) : Prop := ((k.pcb k.currentPcb).fdsArray fd).flags = fileFlag

/-- The reads that keep the position of `fd` right. -/
def PositionOk (fs : FileSys) (k : Kernel) (fd : Nat) (buf : UInt32) (nbytes : Int) : Prop :=
  buf = 0 ∨ fs.FileReadOk (k.callerPcb.nameAt fd) (k.position fd).toNat nbytes.toNat

variable {fs : FileSys} {k : Kernel} {fd : Nat}

/-- The length of a file is a word of the image. -/
theorem fileLength_lt (fs : FileSys) (inode : Nat) : fs.fileLength inode < 2 ^ 32 := wordAt_lt _ _

/-- Adding -1 is felt. -/
theorem add_minusOne_ne (a : UInt32) : a + UInt32.ofInt (-1) ≠ a := by
  intro h
  have hzero : UInt32.ofInt (-1) = 0 :=
    (UInt32.add_right_inj a).1 (h.trans (UInt32.add_zero a).symm)
  exact absurd hzero (by decide)

/-- `file_read_setup`, when the read finds everything: the position moves by what is returned and stays
    in the file. -/
theorem fileReadSetup_ok {n : Nat}
    (hok : fs.FileReadOk (k.callerPcb.nameAt fd) (k.position fd).toNat n) :
    ∃ m : Nat, (k.fileReadSetup fs fd n).1.ret = m ∧
      ((k.fileReadSetup fs fd n).2.position fd).toNat = (k.position fd).toNat + m ∧
      ∀ d, fs.readDentryByName (k.callerPcb.nameAt fd) = some d →
        (k.position fd).toNat + m ≤ fs.fileLength d.inode.toNat := by
  obtain ⟨m, hm, hle⟩ := (fs.fileRead_ret _ _ _).1 hok
  refine ⟨m, hm, ?_, hle⟩
  obtain ⟨d, hd, -⟩ := hok
  have hlt := fileLength_lt fs d.inode.toNat
  have hpos := hle d hd
  have hret : (k.fileReadSetup fs fd n).1.ret = (m : Int) := hm
  rw [Kernel.position, fdsArray_fileReadSetup, hret]
  exact toNat_add_ofInt (Nat.lt_of_le_of_lt hpos hlt)

/-- **When a read moves the position right.** -/
theorem positionExact_iff (hfd : fd < 8) (hfile : ReadsFile k fd) (buf : UInt32) {nbytes : Int}
    (hn : 0 ≤ nbytes) :
    ∃ r, k.read fs fd buf nbytes = some r ∧ (PositionExact k fd r ↔ PositionOk fs k fd buf nbytes) := by
  by_cases hbuf : buf = 0
  · refine ⟨_, StreamInv.read_of_bad_args (Or.inr hbuf), fun _ => Or.inl hbuf, fun _ => ?_⟩
    exact ⟨fun _ => rfl, fun h => absurd (show (0 : Int) ≤ -1 from h) (by decide)⟩
  · refine ⟨_, read_eq_fileReadSetup hfd hfile hbuf hn, fun h => Or.inr ?_, fun h => ?_⟩
    · by_contra hnot
      have hret : (k.fileReadSetup fs fd nbytes.toNat).1.ret = -1 := (fs.fileRead_ret _ _ _).2 hnot
      have hsame := h.1 hret
      rw [Kernel.position, fdsArray_fileReadSetup, hret] at hsame
      exact add_minusOne_ne _ hsame
    · obtain ⟨m, hret, hpos, -⟩ := fileReadSetup_ok (h.resolve_left hbuf)
      rw [PositionExact, hret, hpos]
      exact ⟨fun h => absurd h (by omega), fun _ => Int.natCast_add _ _⟩

/-! ## Runs of reads -/

/-- The reads of a run: of any descriptor, and of `fd` only such as keep its position right. -/
def ReadsRight (fs : FileSys) (fd : Nat) (k : Kernel) (e : Event) : Prop :=
  ∃ fd' buf nbytes, e = .read fd' buf nbytes ∧
    (fd' = fd → 0 ≤ nbytes → PositionOk fs k fd buf nbytes)

/-- The bytes that reads of `fd` have returned, after one more event. -/
def totalAfter (fs : FileSys) (fd : Nat) (k : Kernel) (e : Event) (_ : Kernel) (total : Nat) : Nat :=
  match e with
  | .read fd' buf nbytes =>
      if fd' = fd then
        match k.read fs fd' buf nbytes with
        | some r => total + r.1.ret.toNat
        | none => total
      else total
  | _ => total

/-- Behind a run of reads from state `k`: the same file is open, and the position has moved by the
    total and is in the file. -/
structure PositionInv (fs : FileSys) (k : Kernel) (fd : Nat) (s : Kernel × Nat) : Prop where
  file : ReadsFile s.1 fd
  name : s.1.callerPcb.nameAt fd = k.callerPcb.nameAt fd
  moved : (s.1.position fd).toNat = (k.position fd).toNat + s.2
  within : ∀ d, fs.readDentryByName (k.callerPcb.nameAt fd) = some d →
    (s.1.position fd).toNat ≤ fs.fileLength d.inode.toNat

/-- `read` leaves the flags and the names as they are. -/
theorem readsFile_read {fd' : Int} {buf : UInt32} {nbytes : Int} {r : Transfer × Kernel}
    (h : k.read fs fd' buf nbytes = some r) (hfile : ReadsFile k fd) :
    ReadsFile r.2 fd ∧ r.2.callerPcb.nameAt fd = k.callerPcb.nameAt fd := by
  rcases k.read_cases fs h with hsame | ⟨-, -, -, rfl⟩
  · have hpcb : r.2.pcb r.2.currentPcb = k.pcb k.currentPcb :=
      congrArg (fun c : Core => c.pcb c.currentPcb) hsame
    rw [ReadsFile, hpcb, Kernel.callerPcb_congr hsame]
    exact ⟨hfile, rfl⟩
  · refine ⟨?_, nameAt_fileReadSetup k _ fd⟩
    have hptr : (k.fileReadSetup fs fd'.toNat nbytes.toNat).2.currentPcb = k.currentPcb := rfl
    rw [ReadsFile, hptr, Kernel.fileReadSetup]
    dsimp only [Kernel.setPcb]
    rw [Function.update_apply]
    split_ifs with hcaller
    · rw [Pcb.fdsArray_setFds, ← hcaller]
      split_ifs with hfd'
      · rw [← hfd']
        exact hfile
      · exact hfile
    · exact hfile

/-- A read of another descriptor does not move this one. -/
theorem position_read_other {fd' : Int} {buf : UInt32} {nbytes : Int} {r : Transfer × Kernel}
    (h : k.read fs fd' buf nbytes = some r) (hne : fd' ≠ fd) : r.2.position fd = k.position fd := by
  rcases k.read_cases fs h with hsame | ⟨hlo, -, -, rfl⟩
  · rw [Kernel.position, Kernel.callerPcb_congr hsame]
    rfl
  · have hother : fd ≠ fd'.toNat := by omega
    rw [Kernel.position, Kernel.fileReadSetup, Kernel.callerPcb_setPcb, Pcb.fdsArray_setFds,
      if_neg hother]
    rfl

/-- One read. -/
theorem positionInv_read {k₀ : Kernel} {total : Nat} (hfd : fd < 8)
    (hinv : PositionInv fs k₀ fd (k, total)) {fd' : Int} {buf : UInt32} {nbytes : Int}
    {r : Transfer × Kernel} (hr : k.read fs fd' buf nbytes = some r)
    (hok : fd' = fd → 0 ≤ nbytes → PositionOk fs k fd buf nbytes) :
    PositionInv fs k₀ fd (r.2, totalAfter fs fd k (.read fd' buf nbytes) r.2 total) := by
  obtain ⟨hfile, hname⟩ := readsFile_read hr hinv.file
  have hsame : ∀ total', total' = total → r.2.position fd = k.position fd →
      PositionInv fs k₀ fd (r.2, total') := by
    rintro _ rfl hpos
    refine ⟨hfile, hname.trans hinv.name, ?_, ?_⟩
    · exact (congrArg UInt32.toNat hpos).trans hinv.moved
    · rw [hpos]
      exact hinv.within
  dsimp only [totalAfter]
  by_cases hother : fd' = fd
  · subst hother
    rw [if_pos rfl, hr]
    dsimp only
    by_cases hbad : nbytes < 0 ∨ buf = 0
    · -- nothing is read
      rw [StreamInv.read_of_bad_args hbad, Option.some.injEq] at hr
      subst hr
      exact hsame _ rfl rfl
    · obtain ⟨hn, hbuf⟩ := not_or.1 hbad
      have hn0 : 0 ≤ nbytes := Int.not_lt.1 hn
      obtain ⟨m, hret, hpos, hin⟩ := fileReadSetup_ok ((hok rfl hn0).resolve_left hbuf)
      rw [read_eq_fileReadSetup hfd hinv.file hbuf hn0, Option.some.injEq] at hr
      subst hr
      have hstart : k.callerPcb.nameAt fd = k₀.callerPcb.nameAt fd := hinv.name
      rw [hstart] at hin
      refine ⟨hfile, hname.trans hinv.name, ?_, fun d hd => ?_⟩
      · have hmoved := hinv.moved
        dsimp only at hmoved ⊢
        rw [hpos, hret, hmoved, Int.toNat_natCast, Nat.add_assoc]
      · dsimp only
        rw [hpos]
        exact hin d hd
  · rw [if_neg hother]
    exact hsame _ rfl (position_read_other hr hother)

/-- **The file position.** A read through an open file moves the position by what it returns, and not
    at all when it fails, exactly when it is one of `PositionOk`: the buffer is `NULL` or the read finds
    everything. Over a run of reads, of any descriptors, in which the reads of `fd` are ones of
    `PositionOk`, the position is where it started plus the sum of what was returned, as natural
    numbers, and at most the length of the file. -/
theorem file_position_exact (lay : Layout) (fs : FileSys) :
    (∀ (k : Kernel) (fd : Nat) (buf : UInt32) (nbytes : Int), fd < 8 → ReadsFile k fd → 0 ≤ nbytes →
      ∃ r, k.read fs fd buf nbytes = some r ∧
        (PositionExact k fd r ↔ PositionOk fs k fd buf nbytes)) ∧
    ∀ (k : Kernel) (fd : Nat) (d : Dentry), fd < 8 → ReadsFile k fd →
      fs.readDentryByName (k.callerPcb.nameAt fd) = some d →
      (k.position fd).toNat ≤ fs.fileLength d.inode.toNat →
      ∀ s, Reaches (withGhost (Kernel.step lay fs) (totalAfter fs fd))
        (fun s e => ReadsRight fs fd s.1 e) (k, 0) s →
        (s.1.position fd).toNat = (k.position fd).toNat + s.2 ∧
        (s.1.position fd).toNat ≤ fs.fileLength d.inode.toNat := by
  refine ⟨fun k fd buf nbytes hfd hfile hn => positionExact_iff hfd hfile buf hn, ?_⟩
  intro k fd d hfd hfile hd hle s hrun
  have hinv : PositionInv fs k fd s := by
    refine hrun.invariant ⟨hfile, rfl, rfl, fun d' hd' => ?_⟩ ?_
    · obtain rfl : d = d' := Option.some.inj (hd.symm.trans hd')
      exact hle
    · rintro ⟨s, total⟩ e ⟨s', total'⟩ hs ⟨fd', buf, nbytes, rfl, hok⟩ hstep
      obtain ⟨hk, hg⟩ := withGhost_eq_some hstep
      obtain ⟨r, hr, hrs⟩ := Option.map_eq_some_iff.1 hk
      dsimp only at hg hrs
      rw [hg, ← hrs]
      exact positionInv_read hfd hs hr hok
  exact ⟨hinv.moved, hinv.within d hd⟩

/-- The shell opens `note` and reads it. -/
theorem file_position_note :
    ∃ r, (sampleShell.openFile sampleFs noteName).2.read sampleFs (2 : Nat) 1 3 = some r ∧
      PositionExact (sampleShell.openFile sampleFs noteName).2 2 r := by
  have hname : (sampleFs.readDentryByName
      ((sampleShell.openFile sampleFs noteName).2.callerPcb.nameAt 2)).map (fun d => d.inode.toNat)
        = some 2 := by decide +kernel
  obtain ⟨d, hd, hino⟩ := Option.map_eq_some_iff.1 hname
  have hpos : ((sampleShell.openFile sampleFs noteName).2.position 2).toNat = 0 := by decide +kernel
  have hgood := @sampleFs_goodInode 2 (by decide)
  have hlen : sampleFs.fileLength 2 = 3 := by decide +kernel
  obtain ⟨r, hr, hexact⟩ := (file_position_exact sampleLayout sampleFs).1
    (sampleShell.openFile sampleFs noteName).2 2 1 3 (by decide) (by unfold ReadsFile; decide +kernel)
    (by decide)
  refine ⟨r, hr, hexact.2 (Or.inr ⟨d, hd, ?_⟩)⟩
  rw [hino, hpos]
  refine ⟨hgood.lt, Nat.zero_le _, fun m hm => ?_⟩
  have hstart : FileSys.deliveredFrom 0 = 0 := rfl
  rw [hstart]
  exact hgood.block_lt (0 + m) (by omega)

/-! ## A bad block -/

/-- An image in which the first block of `data` has a number past the end, and the shell with `data`
    open. -/
def badBlockFs : FileSys := fileInit (place 8196 (wordBytes 9) sampleImage)
def shellWithBadData : Kernel := (sampleShell.openFile badBlockFs dataName).2

/-- The read of one byte fails, and the position is 2^32 - 1 afterwards. -/
theorem failed_read_moves_position :
    ¬ ∀ (fs : FileSys) (k : Kernel) (fd : Nat) (buf : UInt32) (nbytes : Int) (r : Transfer × Kernel),
      fd < 8 → ReadsFile k fd → 0 ≤ nbytes → k.read fs fd buf nbytes = some r →
      PositionExact k fd r := by
  intro h
  have hfile : ReadsFile shellWithBadData 2 := by
    unfold ReadsFile
    decide +kernel
  have hread : shellWithBadData.read badBlockFs (2 : Nat) 1 1
      = some (shellWithBadData.fileReadSetup badBlockFs 2 1) :=
    read_eq_fileReadSetup (by decide) hfile (by decide) (by decide)
  have hexact := h badBlockFs shellWithBadData 2 1 1 _ (by decide) hfile (by decide) hread
  have hsame := hexact.1 (by decide +kernel)
  exact absurd hsame (by decide +kernel)

end UnixTerminal
