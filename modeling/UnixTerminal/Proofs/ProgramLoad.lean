import UnixTerminal.Proofs.DescriptorTable
import UnixTerminal.Proofs.Isolation
import Mathlib.Data.List.GetD

set_option autoImplicit false

/-! # The program that `execute` loads

Behind its checks `execute` maps the page of the new process and copies the file there with one call of
`read_data`, for `READ_WHOLE_FILE` bytes. That is 100000, and a file may have 4190208: of a longer one
the rest is missing, and the page keeps what the last process of the slot left there. -/

namespace UnixTerminal

/-- The entry address of an executable: the word at bytes 24 to 27. -/
def FileSys.entryWord (fs : FileSys) (inode : Nat) : UInt32 :=
  UInt32.ofNat (wordAt (fs.fileByte inode) 24)

/-- A page with a program stored at `VIRTUAL_FILE_START`. -/
def loadedPage (page : Nat → UInt8) (bytes : List UInt8) : Nat → UInt8 :=
  fun off => if 0x48000 ≤ off then bytes.getD (off - 0x48000) (page off) else page off

theorem loadedPage_apply (page : Nat → UInt8) (bytes : List UInt8) (m : Nat) :
    loadedPage page bytes (0x48000 + m) = bytes.getD m (page (0x48000 + m)) := by
  rw [loadedPage, if_pos (Nat.le_add_right _ m), Nat.add_sub_cancel_left]

/-- The pages of different process slots do not overlap. -/
theorem processPage_inj {p q : UInt32} (hp : p < 6) (hq : q < 6) (h : processPage p = processPage q) :
    p = q := by
  unfold processPage physFileStart physFileOffset at h
  grind

namespace Kernel

variable (fs : FileSys) (k : Kernel)

/-- The page that is mapped when `execute` copies the program is the one of the new process. -/
theorem userPage_startProcess (p : UInt32) (inode : Nat) (frame : Frame) :
    (k.startProcess fs p inode frame).userPage = Function.update k.userPage (processPage p)
      (loadedPage (k.userPage (processPage p)) (fs.readData inode 0 100000).2) := by
  have hmask : (processPage p ||| 0x87) &&& 0xFFC00000 = processPage p :=
    or_and_field (processPage_low p) (by decide) (by decide)
  have hload : ∀ k' : Kernel, ∀ bytes, ((k'.map virtualFilePage (processPage p)).loadProgram bytes).userPage
      = Function.update k'.userPage (processPage p) (loadedPage (k'.userPage (processPage p)) bytes) := by
    intro k' bytes
    have hdir : (k'.map virtualFilePage (processPage p)).pageDirectory 32 = processPage p ||| 0x87 :=
      k'.core.userPageDirectory_page p
    rw [loadProgram, hdir, hmask]
    rfl
  exact hload _ _

/-- What `execute` did when it started a program. -/
theorem execute_started {command : List UInt8} {env : ExecEnv} {entry : UInt32}
    (h : (k.execute fs command env).1 = .started entry) :
    ∃ (p : UInt32) (inode : Nat), p < 6 ∧ k.core.freeSlot = some p.toNat ∧
      checkFile fs command env.buffer = .exe inode entry ∧
      (k.execute fs command env).2.currProcess = p ∧
      (k.execute fs command env).2.pageDirectory 32 = processPage p ||| 0x87 ∧
      (k.execute fs command env).2.userPage = Function.update k.userPage (processPage p)
        (loadedPage (k.userPage (processPage p)) (fs.readData inode 0 100000).2) := by
  have hexec := k.core_execute fs command env
  rw [h] at hexec
  generalize hcore : (k.execute fs command env).2.core = c at hexec
  cases hexec with
  | @started p inode _ hp hslot hfile =>
      have hcurr : (k.execute fs command env).2.currProcess = p := congrArg Core.currProcess hcore
      have hdir : (k.execute fs command env).2.pageDirectory 32 = processPage p ||| 0x87 :=
        (congrArg (fun c : Core => c.pageDirectory 32) hcore).trans
          ((k.core.claim p command).userPageDirectory_page p)
      refine ⟨p, inode, hp, hslot, hfile, hcurr, hdir, ?_⟩
      have hne : UInt32.ofNat p.toNat ≠ minusOne := ofNat_ne_minusOne (Core.freeSlot_lt hslot)
      simp only [execute, k.core_getProcess_some hslot, hne, hfile, if_false]
      rw [userPage_startProcess, UInt32.ofNat_toNat]
      rfl

end Kernel

/-! ## What is read -/

namespace FileSys

variable (fs : FileSys)

/-- A byte of a part of a file, or the default behind the part. -/
theorem getD_take_drop_contents {inode offset m : Nat} (length : Nat) (hm : offset + m < fs.fileLength inode)
    (x : UInt8) :
    (((fs.contents inode).drop offset).take length).getD m x
      = if m < length then fs.fileByte inode (offset + m) else x := by
  by_cases hlt : m < length
  · have hpart : m < (((fs.contents inode).drop offset).take length).length := by
      rw [List.length_take, List.length_drop, length_contents]
      omega
    rw [if_pos hlt, List.getD_eq_getElem _ _ hpart, List.getElem_take, List.getElem_drop]
    simp [contents]
  · have hpart : (((fs.contents inode).drop offset).take length).length ≤ m := by
      rw [List.length_take]
      omega
    rw [if_neg hlt, List.getD_eq_default _ _ hpart]

end FileSys

/-- The checks of `execute` on a file of at least 28 bytes find its inode and its entry address. -/
theorem checkFile_exe {fs : FileSys} {command : List UInt8} {buffer : Nat → UInt8} {d : Dentry}
    {inode : Nat} {entry : UInt32} (hd : fs.readDentryByName (commandName command) = some d)
    (hgood : fs.GoodInode d.inode.toNat) (hlen : 28 ≤ fs.fileLength d.inode.toNat)
    (hfile : checkFile fs command buffer = .exe inode entry) :
    inode = d.inode.toNat ∧ entry = fs.entryWord d.inode.toNat := by
  have hread : (fs.readData d.inode.toNat 24 4).2 = ((fs.contents d.inode.toNat).drop 24).take 4 := by
    rw [fs.readData_eq hgood (by omega) (Or.inr (Or.inl (by decide)))]
  have hbyte : ∀ (b : Nat → UInt8) (m : Nat), m < 4 →
      overlay b (fs.readData d.inode.toNat 24 4).2 m = fs.fileByte d.inode.toNat (24 + m) := by
    intro b m hm
    rw [overlay, hread, fs.getD_take_drop_contents 4 (by omega), if_pos hm]
  have hword : ∀ b, wordAt (overlay b (fs.readData d.inode.toNat 24 4).2) 0
      = wordAt (fs.fileByte d.inode.toNat) 24 := by
    intro b
    rw [wordAt, hbyte b 0 (by decide), hbyte b (0 + 1) (by decide), hbyte b (0 + 2) (by decide),
      hbyte b (0 + 3) (by decide)]
    rfl
  rw [checkFile, checkNamed, hd] at hfile
  dsimp only at hfile
  split_ifs at hfile with hmagic
  rw [hword] at hfile
  cases hfile
  exact ⟨rfl, rfl⟩

/-! ## The result -/

/-- The program of an inode is loaded: in state `k'`, which `execute` reaches from `k` with the entry
    address `entry`. -/
structure ProgramLoaded (fs : FileSys) (inode : Nat) (k k' : Kernel) (entry : UInt32) : Prop where
  slot : k.core.freeSlot = some k'.currProcess.toNat
  mapped : k'.pageDirectory 32 = processPage k'.currProcess ||| 0x87
  bytes : ∀ m, m < fs.fileLength inode →
    k'.userPage (processPage k'.currProcess) (0x48000 + m) = fs.fileByte inode m
  entry_eq : entry = fs.entryWord inode
  others : ∀ q, q < 6 → q ≠ k'.currProcess → k'.userPage (processPage q) = k.userPage (processPage q)
  stdin : ((k'.pcbOf k'.currProcess).fdsArray 0).flags = stdinFlag
  stdout : ((k'.pcbOf k'.currProcess).fdsArray 1).flags = stdoutFlag
  unused : ∀ i, 2 ≤ i → i < 8 → ((k'.pcbOf k'.currProcess).fdsArray i).flags = notSet ∧
    ((k'.pcbOf k'.currProcess).fdsArray i).filePosition = 0

/-- The bytes of the file from 100000 on lie already in the page of the slot that `get_process` hands
    out. A file of up to 100000 bytes has none. -/
def TailInPlace (fs : FileSys) (inode : Nat) (k : Kernel) : Prop :=
  ∀ p : UInt32, p < 6 → k.core.freeSlot = some p.toNat → ∀ m, 100000 ≤ m → m < fs.fileLength inode →
    k.userPage (processPage p) (0x48000 + m) = fs.fileByte inode m

theorem tailInPlace_of_length_le {fs : FileSys} {inode : Nat} (k : Kernel)
    (hlen : fs.fileLength inode ≤ 100000) : TailInPlace fs inode k := by
  intro p hp hslot m hm hlt
  omega

/-- The bytes in the page of the new process: the file's up to 100000, the old ones behind. -/
theorem loadedPage_readData {fs : FileSys} {inode : Nat} (hgood : fs.GoodInode inode)
    (page : Nat → UInt8) {m : Nat} (hm : m < fs.fileLength inode) :
    loadedPage page (fs.readData inode 0 100000).2 (0x48000 + m)
      = if m < 100000 then fs.fileByte inode m else page (0x48000 + m) := by
  have hread : (fs.readData inode 0 100000).2 = ((fs.contents inode).drop 0).take 100000 := by
    rw [fs.readData_eq hgood (Nat.zero_le _) (Or.inr (Or.inl (by decide)))]
  have hm' : 0 + m < fs.fileLength inode := by omega
  rw [loadedPage_apply, hread, fs.getD_take_drop_contents 100000 hm', Nat.zero_add]

/-- **When `execute` loads the whole program**: its bytes from 100000 on are in the page before. -/
theorem program_loaded_iff (fs : FileSys) (hwf : fs.WellFormed) (k : Kernel) (command : List UInt8)
    (env : ExecEnv) (d : Dentry) (hd : fs.readDentryByName (commandName command) = some d)
    (htype : d.fileType = fileType) (hlen : 28 ≤ fs.fileLength d.inode.toNat)
    (_hfits : 0x48000 + fs.fileLength d.inode.toNat ≤ 0x400000) (entry : UInt32)
    (hstart : (k.execute fs command env).1 = .started entry) :
    ProgramLoaded fs d.inode.toNat k (k.execute fs command env).2 entry ↔
      TailInPlace fs d.inode.toNat k := by
  have hgood : fs.GoodInode d.inode.toNat := hwf.goodInode hd htype
  have hfds := (callerPcb_of_started hstart).1
  obtain ⟨p, inode, hp, hslot, hfile, hcurr, hdir, hpage⟩ := k.execute_started fs hstart
  obtain ⟨rfl, hentry⟩ := checkFile_exe hd hgood hlen hfile
  have hbytes : ∀ m, m < fs.fileLength d.inode.toNat →
      (k.execute fs command env).2.userPage (processPage p) (0x48000 + m)
        = if m < 100000 then fs.fileByte d.inode.toNat m else k.userPage (processPage p) (0x48000 + m) := by
    intro m hm
    rw [hpage, Function.update_self, loadedPage_readData hgood _ hm]
  constructor
  · intro h q hq hslot' m hfrom hm
    obtain rfl : q = p := UInt32.toNat_inj.1 (Option.some.inj (hslot'.symm.trans hslot))
    have hm' := h.bytes m hm
    rw [hcurr, hbytes m hm, if_neg (Nat.not_lt.2 hfrom)] at hm'
    exact hm'
  · intro htail
    refine ⟨?_, ?_, fun m hm => ?_, hentry, fun q hq hne => ?_, ?_, ?_, fun i h2 h8 => ?_⟩
    · rw [hcurr]
      exact hslot
    · rw [hcurr]
      exact hdir
    · rw [hcurr, hbytes m hm]
      split_ifs with hfirst
      · rfl
      · exact htail p hp hslot m (Nat.not_lt.1 hfirst) hm
    · rw [hcurr] at hne
      rw [hpage, Function.update_of_ne (fun he => hne (processPage_inj hq hp he))]
    · exact congrArg Fds.flags (hfds 0 (by decide))
    · exact congrArg Fds.flags (hfds 1 (by decide))
    · have h0 : i ≠ 0 := by omega
      have h1 : i ≠ 1 := by omega
      have hslots := hfds i h8
      rw [Kernel.initFds, if_neg h0, if_neg h1] at hslots
      exact ⟨congrArg Fds.flags hslots, congrArg Fds.filePosition hslots⟩

/-- The first shell, of 28 bytes, is loaded at boot. -/
theorem program_loaded_shell :
    ProgramLoaded sampleFs 0 (Kernel.boot sampleLayout sampleMemory) sampleShell 0x8048000 := by
  obtain ⟨d, hd, htype, hinode⟩ := @FileSys.exists_dentry sampleFs (commandName shellName) fileType 0
    (by decide +kernel)
  have hlen : sampleFs.fileLength 0 = 28 := by decide +kernel
  have hzero : d.inode.toNat = 0 := congrArg UInt32.toNat hinode
  have hloaded := (program_loaded_iff sampleFs sampleFs_wellFormed (Kernel.boot sampleLayout sampleMemory)
    shellName (sampleEnv 100 101) d hd htype (by rw [hzero, hlen]) (by rw [hzero, hlen]; decide)
    0x8048000 sampleShell_started).2 (tailInPlace_of_length_le _ (by rw [hzero, hlen]; decide))
  rwa [hzero] at hloaded

/-! ## A program of 100001 bytes -/

/-- The sample image with another shell: 100001 bytes long, all its blocks are block 0, and byte 1696 of
    the block, where byte 100000 of the file lies, is `a`. -/
def bigImage : Nat → UInt8 := place 4096 (wordBytes 100001) <| place 18080 [97] sampleImage

def bigFs : FileSys := fileInit bigImage

theorem bigFs_wellFormed : bigFs.WellFormed := by
  have hnum : bigFs.numDentries = 4 := by decide +kernel
  have hnumInodes : bigFs.numInodes = 3 := by decide +kernel
  have hinode : ∀ i < 4, (bigFs.myDentry i).inode.toNat < 3 := by decide +kernel
  have hname : ∀ i < 4, 1 ≤ (bigFs.entryName i).length ∧ (bigFs.entryName i).length ≤ 32 := by
    decide +kernel
  have hinj : ∀ i < 4, ∀ j < 4, bigFs.entryName i = bigFs.entryName j → i = j := by decide +kernel
  have hlen : ∀ i < 3, bigFs.fileLength i ≤ 25 * 4096 := by decide +kernel
  have hblocks : ∀ i < 3, ∀ w < 25, w * 4096 < bigFs.fileLength i →
      bigFs.inodeWord i (1 + w) < bigFs.numDataBlocks := by decide +kernel
  have hgood : ∀ i < 3, bigFs.GoodInode i := fun i hi =>
    FileSys.goodInode_of_blocks (hnumInodes ▸ hi) (by decide) (hlen i hi) (hblocks i hi)
  refine ⟨fun i hi _ => hgood _ (hinode i (hnum ▸ hi)), fun i hi => hname i (hnum ▸ hi),
    fun i j hi hj => hinj i (hnum ▸ hi) j (hnum ▸ hj)⟩

/-- Byte 100000 of the new shell is `a`, and its page has the 0 that was there before. -/
theorem big_program_not_loaded :
    ¬ ∀ (fs : FileSys) (k : Kernel) (command : List UInt8) (env : ExecEnv) (d : Dentry) (entry : UInt32),
      fs.WellFormed → fs.readDentryByName (commandName command) = some d → d.fileType = fileType →
      28 ≤ fs.fileLength d.inode.toNat → 0x48000 + fs.fileLength d.inode.toNat ≤ 0x400000 →
      (k.execute fs command env).1 = .started entry →
      ProgramLoaded fs d.inode.toNat k (k.execute fs command env).2 entry := by
  intro h
  obtain ⟨d, hd, htype, hinode⟩ := @FileSys.exists_dentry bigFs (commandName shellName) fileType 0
    (by decide +kernel)
  have hlen : bigFs.fileLength 0 = 100001 := by decide +kernel
  have hlast : bigFs.fileByte 0 100000 = 97 := by decide +kernel
  have hzero : d.inode.toNat = 0 := congrArg UInt32.toNat hinode
  have hstart : ((Kernel.boot sampleLayout sampleMemory).execute bigFs shellName
      (sampleEnv 100 101)).1 = .started 0x8048000 := by decide +kernel
  have hloaded := h bigFs (Kernel.boot sampleLayout sampleMemory) shellName (sampleEnv 100 101) d 0x8048000
    bigFs_wellFormed hd htype (by rw [hzero, hlen]; decide) (by rw [hzero, hlen]; decide) hstart
  obtain ⟨p, inode, -, -, hfile, hcurr, -, hpage⟩ := Kernel.execute_started bigFs _ hstart
  have hgood : bigFs.GoodInode d.inode.toNat := bigFs_wellFormed.goodInode hd htype
  obtain ⟨rfl, -⟩ := checkFile_exe hd hgood (by rw [hzero, hlen]; decide) hfile
  have hm : 100000 < bigFs.fileLength d.inode.toNat := by rw [hzero, hlen]; decide
  have hbyte := hloaded.bytes 100000 hm
  rw [hcurr, hpage, Function.update_self, loadedPage_readData hgood _ hm, if_neg (Nat.lt_irrefl _), hzero,
    hlast] at hbyte
  -- the memory is zero at boot
  have hboot : (0 : UInt8) = 97 := hbyte
  exact absurd hboot (by decide)

end UnixTerminal
