import UnixTerminal.Library.Bits
import UnixTerminal.Library.Run
import UnixTerminal.Proofs.Boot

set_option autoImplicit false

/-! # What user mode can reach

The tables written by `paging_init`, `map` and `map_w_pt` over a whole run, and the user-mode
accesses they permit. `page_directory[1]`, the entry of the kernel's own page, is written as `0x87`,
which has the user bit; the comment beside it says supervisor. So in every state all of `[4 MB, 8 MB)`
is open to user mode. Outside that page the tables do what they are for. -/

namespace UnixTerminal

/-- User-mode accesses reach the page of the current process and the video page, nothing else. -/
def Isolated (lay : Layout) (k : Kernel) : Prop :=
  ∀ (a : UInt32) (write : Bool) (pa : UInt32), k.userTranslate lay a write = some pa →
    (0x8000000 ≤ a ∧ a < 0x8400000 ∧ pa = (processPage k.currProcess ||| (a &&& 0x3FFFFF)))
    ∨ (0x9000000 ≤ a ∧ a < 0x9001000)

/-- The tables of every reachable state: the entries of `paging_init`, and behind them the page of the
    current process and the video page, once these are mapped. -/
structure PageTables (lay : Layout) (directory userVideo : Nat → UInt32) (current : UInt32) : Prop where
  table : directory 0 = 0x03 ||| lay.pageTable
  kernel : directory 1 = 0x87 ||| 0x400000
  user : directory 32 = 0x02 ∨ directory 32 = processPage current ||| 0x87
  video : directory 36 = 0x02 ∨ directory 36 = lay.userVideoPageTable ||| 0x7
  rest : ∀ i, i < 1024 → i ≠ 0 → i ≠ 1 → i ≠ 32 → i ≠ 36 → directory i = 0x02
  userVideo_rest : ∀ i, i ≠ 0 → userVideo i = 0

namespace PageTables

variable {lay : Layout} {directory userVideo : Nat → UInt32} {current : UInt32}

theorem mapUser (h : PageTables lay directory userVideo current) (p : UInt32) :
    PageTables lay (Function.update directory 32 (processPage p ||| 0x87)) userVideo p where
  table := by simpa using h.table
  kernel := by simpa using h.kernel
  user := Or.inr (Function.update_self _ _ _)
  video := by simpa using h.video
  rest i hi h0 h1 h32 h36 := by simpa [h32] using h.rest i hi h0 h1 h32 h36
  userVideo_rest := h.userVideo_rest

theorem mapVideo (h : PageTables lay directory userVideo current) (phys : UInt32) :
    PageTables lay (Function.update directory 36 (lay.userVideoPageTable ||| 0x7))
      (Function.update userVideo 0 (phys ||| 0x7)) current where
  table := by simpa using h.table
  kernel := by simpa using h.kernel
  user := by simpa using h.user
  video := Or.inr (Function.update_self _ _ _)
  rest i hi h0 h1 h32 h36 := by simpa [h36] using h.rest i hi h0 h1 h32 h36
  userVideo_rest i hi := by simpa [hi] using h.userVideo_rest i hi

end PageTables

/-- The tables of a core are in order. -/
def Core.Paged (lay : Layout) (c : Core) : Prop :=
  PageTables lay c.pageDirectory c.userVideoPageTable c.currProcess

section Steps

variable {lay : Layout} {fs : FileSys} {c c' : Core}

theorem Core.Exec.paged {command : List UInt8} {env : ExecEnv} {o : ExecOutcome}
    (h : c.Exec fs command env o c') (hc : c.Paged lay) : c'.Paged lay := by
  cases h with
  | full => exact hc
  | notFound => exact hc
  | notExe => exact hc
  | started => exact hc.mapUser _

theorem Core.Halt.paged {eax : UInt32} {env : ExecEnv} {o : HaltOutcome}
    (h : c.Halt fs eax env o c') (hc : c.Paged lay) : c'.Paged lay := by
  cases h with
  | toParent => exact hc.mapUser _
  | restarted _ hexec => exact hexec.paged (c := c.endRoot) hc
  | stuck _ hexec => exact PageTables.mapUser (hexec.paged (c := c.endRoot) hc) _

/-- Every transition keeps the tables in order. -/
theorem Core.Step.paged {e : Event} (h : c.Step lay fs e c') (hc : c.Paged lay) : c'.Paged lay := by
  cases h with
  | execute h => exact h.paged hc
  | halt h => exact h.paged hc
  | haltFromExc h => exact h.paged hc
  | openFile => exact hc
  | close => exact hc
  | read => exact hc
  | write => exact hc
  | vidmapFail => exact hc
  | vidmap => exact hc.mapVideo video
  | switchTask => exact (hc.mapUser _).mapVideo _
  | stay => exact hc
  | openTerminal _ _ _ h => exact h.paged (c := c.toTerminal _ _) hc
  | viewTerminal => exact hc.mapVideo _
  | neighbours => exact hc

end Steps

/-- The tables are in order in every reachable state. -/
theorem paged_of_reaches {lay : Layout} {fs : FileSys} {mem : BootMemory} {k : Kernel}
    (h : Reaches (Kernel.step lay fs) (fun _ _ => True) (Kernel.boot lay mem) k) :
    k.core.Paged lay := by
  refine h.invariant (I := fun k => k.core.Paged lay) ?_ ?_
  · rw [core_boot]
    refine ⟨rfl, rfl, Or.inl rfl, Or.inl rfl, fun i hi h0 h1 _ _ => ?_, fun _ _ => rfl⟩
    simp [initialDirectory, hi, h0, h1]
  · intro k e k' hk _ hstep
    exact (k.core_step lay fs hstep).paged hk

/-! ## The accesses these tables permit -/

/-- The directory index of an address. -/
theorem toNat_shiftRight_22 (a : UInt32) : (a >>> 22).toNat = a.toNat / 4194304 := by
  rw [UInt32.toNat_shiftRight]
  exact Nat.shiftRight_eq_div_pow _ _

/-- The table index of an address. -/
theorem toNat_tableIndex (a : UInt32) : ((a >>> 12) &&& 0x3FF).toNat = a.toNat / 4096 % 1024 := by
  have h : (a >>> 12).toNat = a.toNat / 4096 := by
    rw [UInt32.toNat_shiftRight]
    exact Nat.shiftRight_eq_div_pow _ _
  exact (toNat_and_low (n := 10) (by decide)).trans (congrArg (· % 1024) h)

/-- A 4 MB page starts at a multiple of 4 MB. -/
theorem processPage_low (p : UInt32) : processPage p &&& 0x3FFFFF = 0 := by
  have hstart : physFileStart.toNat = 8388608 := rfl
  have hoffset : physFileOffset.toNat = 4194304 := rfl
  have hzero : (0 : UInt32).toNat = 0 := rfl
  apply UInt32.toNat_inj.1
  rw [toNat_and_low (n := 22) (by decide), processPage, UInt32.toNat_add, UInt32.toNat_mul, hstart,
    hoffset, hzero]
  omega

namespace Kernel

variable {lay : Layout} {k : Kernel}

/-- No user-mode access goes through an entry without the present or the user bit. -/
theorem userTranslate_of_denied {a : UInt32} {write : Bool}
    (h : userPermits (k.pageDirectory (a >>> 22).toNat) write = false) :
    k.userTranslate lay a write = none := by
  unfold userTranslate
  dsimp only
  rw [h]
  rfl

/-- The kernel's page is open to user mode, for reading and writing. -/
theorem userTranslate_kernel (hk : k.core.Paged lay) {a : UInt32} (hlo : 0x400000 ≤ a)
    (hhi : a < 0x800000) (write : Bool) :
    k.userTranslate lay a write = some (0x400000 ||| (a &&& 0x3FFFFF)) := by
  have hlo' : 4194304 ≤ a.toNat := UInt32.le_iff_toNat_le.1 hlo
  have hhi' : a.toNat < 8388608 := UInt32.lt_iff_toNat_lt.1 hhi
  have hidx : (a >>> 22).toNat = 1 := by
    rw [toNat_shiftRight_22]
    omega
  have hpde : k.pageDirectory 1 = 0x87 ||| 0x400000 := hk.kernel
  have hpermit : userPermits (0x87 ||| 0x400000) write = true := by cases write <;> decide
  have hbig : (0x87 ||| 0x400000 : UInt32) &&& 0x80 ≠ 0 := by decide
  unfold userTranslate
  rw [hidx, hpde]
  dsimp only
  rw [hpermit, if_neg (by decide), if_pos hbig]
  rfl

/-- Through the entry of `VIRTUAL_FILE_PAGE` an access reaches the page of the current process. -/
theorem userTranslate_user (hk : k.core.Paged lay) {a pa : UInt32} {write : Bool}
    (hidx : (a >>> 22).toNat = 32) (h : k.userTranslate lay a write = some pa) :
    pa = (processPage k.currProcess ||| (a &&& 0x3FFFFF)) := by
  rcases hk.user with hpde | hpde
  · have hdeny : userPermits (k.pageDirectory (a >>> 22).toNat) write = false := by
      rw [hidx, show k.pageDirectory 32 = 0x02 from hpde]
      rfl
    rw [userTranslate_of_denied hdeny] at h
    cases h
  · have hpde' : k.pageDirectory 32 = processPage k.currProcess ||| 0x87 := hpde
    have hbig : (processPage k.currProcess ||| 0x87) &&& 0x80 ≠ 0 := by
      rw [or_and_flags (processPage_low _) (by decide)]
      decide
    have hpage : (processPage k.currProcess ||| 0x87) &&& 0xFFC00000 = processPage k.currProcess :=
      or_and_field (processPage_low _) (by decide) (by decide)
    unfold userTranslate at h
    rw [hidx, hpde'] at h
    dsimp only at h
    split_ifs at h
    rw [hpage, Option.some.injEq] at h
    exact h.symm

/-- Through the entry of `USER_VID_MEM` an access reaches the first page of it only. -/
theorem userTranslate_video (hk : k.core.Paged lay) {a pa : UInt32} {write : Bool}
    (hidx : (a >>> 22).toNat = 36) (h : k.userTranslate lay a write = some pa) :
    a.toNat / 4096 % 1024 = 0 := by
  rcases hk.video with hpde | hpde
  · have hdeny : userPermits (k.pageDirectory (a >>> 22).toNat) write = false := by
      rw [hidx, show k.pageDirectory 36 = 0x02 from hpde]
      rfl
    rw [userTranslate_of_denied hdeny] at h
    cases h
  · have hpde' : k.pageDirectory 36 = lay.userVideoPageTable ||| 0x7 := hpde
    have hsmall : (lay.userVideoPageTable ||| 0x7) &&& 0x80 = 0 := by
      rw [or_and_flags lay.userVideoPageTable_aligned (by decide)]
      decide
    have hbase : (lay.userVideoPageTable ||| 0x7) &&& 0xFFFFF000 = lay.userVideoPageTable :=
      or_and_field lay.userVideoPageTable_aligned (by decide) (by decide)
    have htable : k.tableAt lay lay.userVideoPageTable = k.userVideoPageTable := by
      simp [tableAt]
    unfold userTranslate at h
    rw [hidx, hpde'] at h
    dsimp only at h
    rw [hsmall, hbase, htable, toNat_tableIndex] at h
    by_contra hne
    have hentry : k.userVideoPageTable (a.toNat / 4096 % 1024) = 0 := hk.userVideo_rest _ hne
    rw [hentry] at h
    have hzero : userPermits 0 write = false := rfl
    simp [hzero] at h

/-- Every other entry denies user mode. -/
theorem userTranslate_other (hk : k.core.Paged lay) {a : UInt32} {write : Bool}
    (h1 : (a >>> 22).toNat ≠ 1) (h32 : (a >>> 22).toNat ≠ 32) (h36 : (a >>> 22).toNat ≠ 36) :
    k.userTranslate lay a write = none := by
  apply userTranslate_of_denied
  by_cases h0 : (a >>> 22).toNat = 0
  · -- the entry of the first 4 MB is a supervisor entry
    have hpde : k.pageDirectory 0 = lay.pageTable ||| 0x03 :=
      (show k.pageDirectory 0 = 0x03 ||| lay.pageTable from hk.table).trans (UInt32.or_comm _ _)
    have huser : (lay.pageTable ||| 0x03) &&& 4 = 0 := by
      rw [or_and_flags lay.pageTable_aligned (by decide)]
      decide
    rw [h0, hpde, userPermits, huser]
    simp
  · have hlt : (a >>> 22).toNat < 1024 := by
      have := a.toNat_lt
      rw [toNat_shiftRight_22]
      omega
    have hpde : k.pageDirectory (a >>> 22).toNat = 0x02 := hk.rest _ hlt h0 h1 h32 h36
    rw [hpde]
    rfl

end Kernel

/-- **User mode is never isolated.** In every state reached after `paging_init` the whole page of the
    kernel is readable and writable in user mode. Outside it only the page of the current process and the
    window of the video page are. -/
theorem kernel_page_exposed (lay : Layout) (fs : FileSys) (mem : BootMemory) (k : Kernel)
    (h : Reaches (Kernel.step lay fs) (fun _ _ => True) (Kernel.boot lay mem) k) :
    ¬ Isolated lay k
    ∧ (∀ (a : UInt32) (write : Bool), 0x400000 ≤ a → a < 0x800000 →
        k.userTranslate lay a write = some (0x400000 ||| (a &&& 0x3FFFFF)))
    ∧ (∀ (a : UInt32) (write : Bool) (pa : UInt32), k.userTranslate lay a write = some pa →
        (0x400000 ≤ a ∧ a < 0x800000)
        ∨ (0x8000000 ≤ a ∧ a < 0x8400000 ∧ pa = (processPage k.currProcess ||| (a &&& 0x3FFFFF)))
        ∨ (0x9000000 ≤ a ∧ a < 0x9001000)) := by
  have hk := paged_of_reaches h
  refine ⟨fun hiso => ?_, fun a write hlo hhi => Kernel.userTranslate_kernel hk hlo hhi write,
    fun a write pa htr => ?_⟩
  · -- the first byte of the kernel's page
    have htr := Kernel.userTranslate_kernel hk (a := 0x400000) (by decide) (by decide) true
    rcases hiso _ _ _ htr with ⟨hlo, -⟩ | ⟨hlo, -⟩
    · exact absurd hlo (by decide)
    · exact absurd hlo (by decide)
  · simp only [UInt32.le_iff_toNat_le, UInt32.lt_iff_toNat_lt]
    have hidx := toNat_shiftRight_22 a
    by_cases h1 : (a >>> 22).toNat = 1
    · left
      rw [hidx] at h1
      exact ⟨show 4194304 ≤ a.toNat by omega, show a.toNat < 8388608 by omega⟩
    · by_cases h32 : (a >>> 22).toNat = 32
      · right
        left
        have hpa := Kernel.userTranslate_user hk h32 htr
        rw [hidx] at h32
        exact ⟨show 134217728 ≤ a.toNat by omega, show a.toNat < 138412032 by omega, hpa⟩
      · by_cases h36 : (a >>> 22).toNat = 36
        · right
          right
          have hrow := Kernel.userTranslate_video hk h36 htr
          rw [hidx] at h36
          exact ⟨show 150994944 ≤ a.toNat by omega, show a.toNat < 150999040 by omega⟩
        · rw [Kernel.userTranslate_other hk h1 h32 h36] at htr
          cases htr

/-- The machine with its first shell. -/
theorem kernel_page_exposed_shell : ¬ Isolated sampleLayout sampleShell :=
  (kernel_page_exposed sampleLayout sampleFs sampleMemory sampleShell
    (Reaches.refl.tail (e := .execute shellName (sampleEnv 100 101)) trivial rfl)).1

/-- User mode reads the first byte of the kernel's page while the first shell runs. -/
theorem shell_reads_kernel :
    ¬ ∀ (lay : Layout) (fs : FileSys) (mem : BootMemory) (k : Kernel),
      Reaches (Kernel.step lay fs) (fun _ _ => True) (Kernel.boot lay mem) k → Isolated lay k := by
  intro h
  have hreach : Reaches (Kernel.step sampleLayout sampleFs) (fun _ _ => True)
      (Kernel.boot sampleLayout sampleMemory) sampleShell :=
    Reaches.refl.tail (e := .execute shellName (sampleEnv 100 101)) trivial rfl
  have htr : sampleShell.userTranslate sampleLayout 0x400000 false = some 0x400000 := by
    decide +kernel
  rcases h sampleLayout sampleFs sampleMemory sampleShell hreach 0x400000 false 0x400000 htr with
    ⟨hlo, -⟩ | ⟨hlo, -⟩
  · exact absurd hlo (by decide)
  · exact absurd hlo (by decide)

end UnixTerminal
