import UnixTerminal.Proofs.ProcessTable
import UnixTerminal.Proofs.ReadData

set_option autoImplicit false

/-! # When `execute` starts a program

`execute` reads four bytes of the named file into an uninitialised buffer and compares the buffer with
the ELF magic. It does not look at the value that `read_data` returned, nor at the type of the entry:
where fewer than four bytes arrive the stack decides, and the inode field of an rtc or directory entry
is read like that of a file. -/

namespace UnixTerminal

/-- The first bytes of an executable. -/
def elfMagic : List UInt8 := [0x7F, 0x45, 0x4C, 0x46]

namespace FileSys

variable (fs : FileSys)

/-- The inode exists, and so does its first block. -/
structure HasHead (inode : Nat) : Prop where
  inode_lt : inode < fs.numInodes
  block_lt : fs.inodeWord inode 1 < fs.numDataBlocks

instance (inode : Nat) : Decidable (fs.HasHead inode) :=
  decidable_of_iff (inode < fs.numInodes ∧ fs.inodeWord inode 1 < fs.numDataBlocks)
    ⟨fun h => ⟨h.1, h.2⟩, fun h => ⟨h.inode_lt, h.block_lt⟩⟩

/-- The first bytes of the file of an inode, four at most; none where they cannot be read. -/
def headBytes (inode : Nat) : List UInt8 :=
  if fs.HasHead inode then (fs.contents inode).take 4 else []

theorem length_headBytes {inode : Nat} (hhead : fs.HasHead inode) (hlen : 4 ≤ fs.fileLength inode) :
    (fs.headBytes inode).length = 4 := by
  rw [headBytes, if_pos hhead, List.length_take, length_contents, Nat.min_eq_left hlen]

/-- What the first read of `execute` stores into the buffer. -/
theorem readData_head (inode : Nat) : (fs.readData inode 0 4).2 = fs.headBytes inode := by
  unfold headBytes
  by_cases hinode : inode < fs.numInodes
  · rcases Nat.eq_zero_or_pos (fs.fileLength inode) with hempty | hpos
    · -- an empty file
      have hnone : fs.contents inode = [] := by
        rw [← List.length_eq_zero_iff, length_contents, hempty]
      have hlen : 0 = fs.inodeWord inode 0 := hempty.symm
      rw [hnone, List.take_nil, ite_self, readData, if_neg (Nat.not_le.2 hinode),
        if_neg (Nat.not_lt_zero _), if_pos hlen]
    · by_cases hblock : fs.inodeWord inode 1 < fs.numDataBlocks
      · have hok : fs.ReadDataOk inode 0 4 := by
          refine ⟨hinode, Nat.zero_le _, fun m hm => ?_⟩
          have hfirst : 1 + (deliveredFrom 0 + m) / 4096 = 1 := by
            have hzero : deliveredFrom 0 = 0 := rfl
            rw [hzero]
            omega
          rw [hfirst]
          exact hblock
        rw [if_pos ⟨hinode, hblock⟩, fs.readData_delivers hok hpos]
        exact fs.take_min_drop_contents inode 0 4
      · -- the first block is bad
        have hne : ¬ 0 = fs.inodeWord inode 0 := hpos.ne
        have hpass := @readDataLoop_succ fs inode (fs.inodeWord inode 0) 3 1 0 0 0 (Nat.le_refl 1)
          (Nat.zero_le _) rfl
        have hbad : fs.inodeWord inode (1 + 0 / blockSize) ≥ fs.numDataBlocks := Nat.not_lt.1 hblock
        have hhead : ¬ fs.HasHead inode := fun h => hblock h.block_lt
        rw [if_pos hbad] at hpass
        rw [if_neg hhead, readData, if_neg (Nat.not_le.2 hinode), if_neg (Nat.not_lt_zero _), if_neg hne]
        exact congrArg Prod.snd hpass
  · rw [readData, if_pos (Nat.not_lt.1 hinode), if_neg (fun h => hinode h.inode_lt)]

end FileSys

/-! ## The check -/

/-- The buffer holds the magic behind a read that stores `head` over its start. -/
def LooksLikeProgram (head : List UInt8) (buffer : Nat → UInt8) : Prop :=
  ∀ m, m < 4 → overlay buffer head m = elfMagic.getD m 0

/-- The command names a program: a regular file that can be read and begins with the magic. -/
def NamesProgram (fs : FileSys) (command : List UInt8) : Prop :=
  ∃ d, fs.readDentryByName (commandName command) = some d ∧ d.fileType = fileType ∧
    fs.HasHead d.inode.toNat ∧ elfMagic <+: fs.contents d.inode.toNat

/-- With four bytes read, the buffer does not matter. -/
theorem looksLikeProgram_iff {head : List UInt8} (h : head.length = 4) (buffer : Nat → UInt8) :
    LooksLikeProgram head buffer ↔ head = elfMagic := by
  constructor
  · intro hlook
    refine List.ext_getElem h (fun m hm hm' => ?_)
    have hbyte := hlook m (h ▸ hm)
    rw [overlay, List.getD_eq_getElem _ _ hm, List.getD_eq_getElem _ _ hm'] at hbyte
    exact hbyte
  · rintro rfl m hm
    rw [overlay, List.getD_eq_getElem _ _ hm, List.getD_eq_getElem _ _ hm]

/-- The four tests of `execute`. -/
theorem looksLikeProgram_iff_tests (head : List UInt8) (buffer : Nat → UInt8) :
    LooksLikeProgram head buffer ↔
      ¬ (overlay buffer head 0 ≠ 0x7F ∨ overlay buffer head 1 ≠ 0x45 ∨
        overlay buffer head 2 ≠ 0x4C ∨ overlay buffer head 3 ≠ 0x46) := by
  simp only [not_or, ne_eq, not_not]
  constructor
  · intro h
    exact ⟨h 0 (by decide), h 1 (by decide), h 2 (by decide), h 3 (by decide)⟩
  · rintro ⟨h0, h1, h2, h3⟩ m hm
    obtain rfl | rfl | rfl | rfl : m = 0 ∨ m = 1 ∨ m = 2 ∨ m = 3 := by omega
    · exact h0
    · exact h1
    · exact h2
    · exact h3

theorem isExe_iff (fs : FileSys) (command : List UInt8) (env : ExecEnv) :
    IsExe fs command env ↔ ∃ d, fs.readDentryByName (commandName command) = some d ∧
      LooksLikeProgram (fs.headBytes d.inode.toNat) env.buffer := by
  unfold IsExe checkFile checkNamed
  cases hd : fs.readDentryByName (commandName command) with
  | none => simp
  | some d =>
      dsimp only
      rw [fs.readData_head]
      have hlook := looksLikeProgram_iff_tests (fs.headBytes d.inode.toNat) env.buffer
      by_cases h : LooksLikeProgram (fs.headBytes d.inode.toNat) env.buffer
      · rw [if_neg (hlook.1 h)]
        exact ⟨fun _ => ⟨d, rfl, h⟩, fun _ => ⟨_, _, rfl⟩⟩
      · have hbad := not_not.1 (fun hn => h (hlook.2 hn))
        rw [if_pos hbad]
        constructor
        · rintro ⟨_, _, he⟩
          cases he
        · rintro ⟨d', hd', hlook'⟩
          obtain rfl : d = d' := Option.some.inj hd'
          exact absurd hlook' h

/-- With a free slot, `execute` starts a program or returns -1, by its check on the file. -/
theorem execute_outcome (fs : FileSys) (k : Kernel) (command : List UInt8) (env : ExecEnv)
    (hfree : k.core.freeSlot ≠ none) :
    (IsExe fs command env → ∃ entry, (k.execute fs command env).1 = .started entry) ∧
    (¬ IsExe fs command env → (k.execute fs command env).1 = .returned (-1)) := by
  have hexec := k.core_execute fs command env
  generalize (k.execute fs command env).1 = o at hexec ⊢
  generalize (k.execute fs command env).2.core = c at hexec
  cases hexec with
  | full hslot => exact absurd hslot hfree
  | notFound _ _ hfile =>
      refine ⟨fun ⟨_, _, he⟩ => ?_, fun _ => rfl⟩
      rw [hfile] at he
      cases he
  | notExe _ _ hfile =>
      refine ⟨fun ⟨_, _, he⟩ => ?_, fun _ => rfl⟩
      rw [hfile] at he
      cases he
  | started _ _ hfile => exact ⟨fun _ => ⟨_, rfl⟩, fun hnot => absurd ⟨_, _, hfile⟩ hnot⟩

/-! ## The result -/

/-- `execute` starts a program if the command names one, and returns -1 if it does not. -/
def StartsRight (fs : FileSys) (k : Kernel) (command : List UInt8) (env : ExecEnv) : Prop :=
  ((∃ entry, (k.execute fs command env).1 = .started entry) ↔ NamesProgram fs command) ∧
  (¬ NamesProgram fs command → (k.execute fs command env).1 = .returned (-1))

/-- The entry is a regular file of four readable bytes, or what it delivers, with the old bytes of the
    buffer behind it, is not the magic. -/
def HeadDecides (fs : FileSys) (command : List UInt8) (buffer : Nat → UInt8) : Prop :=
  ∀ d, fs.readDentryByName (commandName command) = some d →
    (d.fileType = fileType ∧ fs.HasHead d.inode.toNat ∧ 4 ≤ fs.fileLength d.inode.toNat) ∨
    ¬ LooksLikeProgram (fs.headBytes d.inode.toNat) buffer

/-- A file that can be read and has four bytes: its first bytes are the magic or not. -/
theorem headBytes_eq_elfMagic {fs : FileSys} {inode : Nat} (hhead : fs.HasHead inode) :
    fs.headBytes inode = elfMagic ↔ elfMagic <+: fs.contents inode := by
  rw [FileSys.headBytes, if_pos hhead, List.prefix_iff_eq_take]
  exact eq_comm

theorem namesProgram_iff {fs : FileSys} {command : List UInt8} {d : Dentry}
    (hd : fs.readDentryByName (commandName command) = some d) :
    NamesProgram fs command ↔
      d.fileType = fileType ∧ fs.HasHead d.inode.toNat ∧ elfMagic <+: fs.contents d.inode.toNat := by
  constructor
  · rintro ⟨d', hd', h⟩
    obtain rfl : d = d' := Option.some.inj (hd.symm.trans hd')
    exact h
  · exact fun h => ⟨d, hd, h⟩

theorem startsRight_iff (fs : FileSys) (k : Kernel) (command : List UInt8) (env : ExecEnv)
    (hfree : k.core.freeSlot ≠ none) :
    StartsRight fs k command env ↔ (IsExe fs command env ↔ NamesProgram fs command) := by
  obtain ⟨hstart, hreturn⟩ := execute_outcome fs k command env hfree
  have hstarted : (∃ entry, (k.execute fs command env).1 = .started entry) ↔ IsExe fs command env := by
    refine ⟨fun ⟨entry, he⟩ => ?_, hstart⟩
    by_contra hnot
    rw [hreturn hnot] at he
    cases he
  rw [StartsRight, hstarted]
  constructor
  · exact fun h => h.1
  · intro h
    exact ⟨h, fun hnot => hreturn (fun he => hnot (h.1 he))⟩

/-- An entry that was found decides alike for the two sides. -/
theorem isExe_iff_namesProgram {fs : FileSys} {command : List UInt8} {env : ExecEnv} {d : Dentry}
    (hd : fs.readDentryByName (commandName command) = some d) :
    (IsExe fs command env ↔ NamesProgram fs command) ↔
      (d.fileType = fileType ∧ fs.HasHead d.inode.toNat ∧ 4 ≤ fs.fileLength d.inode.toNat) ∨
      ¬ LooksLikeProgram (fs.headBytes d.inode.toNat) env.buffer := by
  have hexe : IsExe fs command env ↔ LooksLikeProgram (fs.headBytes d.inode.toNat) env.buffer := by
    rw [isExe_iff, hd]
    exact ⟨fun ⟨_, he, h⟩ => Option.some.inj he ▸ h, fun h => ⟨d, rfl, h⟩⟩
  rw [hexe, namesProgram_iff hd]
  constructor
  · intro h
    by_cases hl : LooksLikeProgram (fs.headBytes d.inode.toNat) env.buffer
    · obtain ⟨htype, hhead, hmagic⟩ := h.1 hl
      have hlen := hmagic.length_le
      rw [FileSys.length_contents] at hlen
      exact Or.inl ⟨htype, hhead, hlen⟩
    · exact Or.inr hl
  · rintro (⟨htype, hhead, hlen⟩ | hnot)
    · rw [looksLikeProgram_iff (fs.length_headBytes hhead hlen), headBytes_eq_elfMagic hhead]
      exact ⟨fun h => ⟨htype, hhead, h⟩, fun h => h.2.2⟩
    · refine ⟨fun h => absurd h hnot, fun ⟨_, hhead, hmagic⟩ => ?_⟩
      have hbytes := (headBytes_eq_elfMagic hhead).2 hmagic
      rw [hbytes]
      exact (looksLikeProgram_iff rfl _).2 rfl

/-- **When `execute` starts the programs and nothing else**: the name is unknown, or it is a regular
    file of four readable bytes, or what was read together with the stack is not the magic. -/
theorem execute_starts_iff (fs : FileSys) (k : Kernel) (command : List UInt8) (env : ExecEnv)
    (hfree : k.core.freeSlot ≠ none) :
    StartsRight fs k command env ↔ HeadDecides fs command env.buffer := by
  rw [startsRight_iff fs k command env hfree]
  cases hd : fs.readDentryByName (commandName command) with
  | none =>
      refine ⟨fun _ d hd' => ?_, fun _ => ?_⟩
      · rw [hd] at hd'
        cases hd'
      · rw [isExe_iff, NamesProgram, hd]
        constructor
        · rintro ⟨_, he, _⟩
          cases he
        · rintro ⟨_, he, _⟩
          cases he
  | some d =>
      rw [isExe_iff_namesProgram hd]
      constructor
      · intro h d' hd'
        obtain rfl : d = d' := Option.some.inj (hd.symm.trans hd')
        exact h
      · exact fun h => h d hd

/-- The shell executes `shell`. -/
theorem execute_starts_shell : StartsRight sampleFs sampleShell shellName (sampleEnv 106 107) := by
  obtain ⟨d, hd, htype, hinode⟩ := @FileSys.exists_dentry sampleFs (commandName shellName) fileType 0
    (by decide +kernel)
  refine (execute_starts_iff sampleFs sampleShell shellName (sampleEnv 106 107) (by decide +kernel)).2
    (fun d' hd' => Or.inl ?_)
  obtain rfl : d = d' := Option.some.inj (hd.symm.trans hd')
  rw [htype, hinode]
  exact ⟨rfl, by decide +kernel, by decide +kernel⟩

/-- The directory `.` is executed: its inode field is 0, the inode of the shell, which starts. -/
theorem execute_starts_directory :
    ¬ ∀ (fs : FileSys) (k : Kernel) (command : List UInt8) (env : ExecEnv),
      k.core.freeSlot ≠ none → strlen command ≤ 127 → StartsRight fs k command env := by
  intro h
  have hright := h sampleFs sampleShell [46] (sampleEnv 106 107) (by decide +kernel) (by decide)
  have hstarted : (sampleShell.execute sampleFs [46] (sampleEnv 106 107)).1 = .started 0x8048000 := by
    decide +kernel
  obtain ⟨d, hd, htype, -⟩ := hright.1.1 ⟨_, hstarted⟩
  have hentry : (sampleFs.readDentryByName (commandName [46])).map (fun d => d.fileType) = some dirType := by
    decide +kernel
  rw [hd, Option.map_some, htype, Option.some.injEq] at hentry
  exact absurd hentry (by decide)

end UnixTerminal
