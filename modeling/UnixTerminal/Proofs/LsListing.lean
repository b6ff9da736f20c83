import UnixTerminal.Programs.Cat
import UnixTerminal.Proofs.Listing
import UnixTerminal.Proofs.ProgramRuns

set_option autoImplicit false

/-! # `ls` on the kernel

`ls` prints the names of the directory, one on a line, for every well-formed image, when no other listing
is under way. The index of the directory reader is back at 0 behind it. -/

namespace UnixTerminal

/-- What `ls` prints of entry `i`. -/
def lsLine (fs : FileSys) (i : Nat) : List UInt8 := fs.entryName i ++ [10]

/-- What `ls` prints of a directory. -/
def lsText (fs : FileSys) : List UInt8 := (List.range fs.numDentries).flatMap (lsLine fs)

section Loop

variable (fs : FileSys) (us : UserSpace) {k : Kernel}

/-- The buffer with the newline in the place of the NUL. -/
theorem memBytes_line (ret : Int) (name : List UInt8) (buf : Nat → UInt8) :
    memBytes (name.length + 1)
      (Function.update (Transfer.store ⟨ret, 0, name ++ [0]⟩ buf) name.length 10) = name ++ [10] := by
  have hname : memBytes name.length (Function.update (Transfer.store ⟨ret, 0, name ++ [0]⟩ buf) name.length 10)
      = name := by
    refine List.ext_getElem (length_memBytes _ _) (fun i _ hi => ?_)
    have hlt : i < (name ++ [0]).length := by
      rw [List.length_append]
      omega
    simp only [memBytes, List.getElem_map, List.getElem_range]
    rw [Function.update_of_ne hi.ne, Transfer.store, if_pos (Nat.zero_le i), Nat.sub_zero,
      List.getD_eq_getElem _ _ hlt, List.getElem_append_left hi]
  rw [memBytes, List.range_succ, List.map_append, ← memBytes, hname]
  simp

/-- A read of a directory moves the index. -/
theorem dirReadnew_ran (k : Kernel) (fs : FileSys) :
    k.Ran [] (k.dirReadnew fs).2 ∧ (k.dirReadnew fs).2.callerPcb = k.callerPcb := by
  have hstate : (k.dirReadnew fs).2 = k.edited k.callerPcb (k.dirReadnew fs).2.dirReadIdxNew := by
    rw [Kernel.edited_callerPcb]
    unfold Kernel.dirReadnew
    split_ifs <;> rfl
  rw [hstate, Kernel.callerPcb_edited]
  exact ⟨.edit (.refl _), rfl⟩

theorem read_listed (hk : k.Running) (hflags : (k.callerPcb.fdsArray 2).flags = dirFlag) :
    (kernelCalls fs us).ece391Read 2 32 k = some (fs.listed k.dirReadIdxNew, (k.dirReadnew fs).2) := by
  have hdir : k.ReadsDir 2 us.ptr 32 :=
    ⟨by decide, us.ptr_ne, by decide, by decide, hk.currentPcb ▸ hflags⟩
  rw [← (dirReadnew_eq fs k).1]
  exact read_eq_dirReadnew hdir

variable {fs}

/-- A pass of the loop with an entry left. -/
theorem printPass_entry (hwf : fs.WellFormed) (hk : k.Running)
    (hflags : (k.callerPcb.fdsArray 2).flags = dirFlag) (hlt : k.dirReadIdxNew < fs.numDentries)
    (buf : Nat → UInt8) :
    ∃ buf' k', printPass (kernelCalls fs us) lsLoop 2 (buf, k) = some (.inr (buf', k')) ∧
      k.Ran (lsLine fs k.dirReadIdxNew) k' ∧ k'.dirReadIdxNew = k.dirReadIdxNew + 1 ∧
      (k'.callerPcb.fdsArray 2).flags = dirFlag := by
  obtain ⟨hran, hpcb⟩ := dirReadnew_ran k fs
  have hnext := (dirReadnew_eq fs k).2
  rw [if_pos hlt] at hnext
  have hread := read_listed fs us hk hflags
  have hname := hwf.name_length _ hlt
  have hnul : ∀ c ∈ fs.entryName k.dirReadIdxNew, c ≠ 0 := fun c hc => ne_zero_of_mem_cstr hc
  have hlen : strlen (fs.myDentry k.dirReadIdxNew).fileName = (fs.entryName k.dirReadIdxNew).length :=
    strlen_eq_length_cstr _
  rw [FileSys.listed, if_pos hlt, hlen] at hread
  rw [lsLine]
  generalize fs.entryName k.dirReadIdxNew = name at hread hname hnul ⊢
  generalize (k.dirReadnew fs).2 = k₁ at hran hpcb hnext hread
  have hspan : name.length + 1 ≤ us.span := by
    have := us.le_span
    omega
  have hline := memBytes_line (name.length : Int) name buf
  have hwrite := Kernel.write_stdout fs us (hk.ran hran).flags
    (Function.update (Transfer.store ⟨name.length, 0, name ++ [0]⟩ buf) name.length 10) hspan
  have hchars : ∀ c ∈ name ++ [10], c ≠ 0 := by
    intro c hc
    rcases List.mem_append.1 hc with hc | hc
    · exact hnul c hc
    · rw [List.mem_singleton.1 hc]
      decide
  rw [hline, cstr_of_no_nul hchars] at hwrite
  refine ⟨Function.update (Transfer.store ⟨name.length, 0, name ++ [0]⟩ buf) name.length 10,
    (name ++ [10]).foldl Kernel.emit k₁, ?_, hran.trans (.print k₁ _), ?_, ?_⟩
  · have hzero : ¬ ((name.length : Int) = 0) := by omega
    have hfail : ¬ ((name.length : Int) = -1) := by omega
    have hwritten : ¬ (((name ++ [10]).length : Int) = -1) := by omega
    simp only [printPass, lsLoop]
    rw [hread, Option.bind_some, if_neg hzero, if_neg hfail]
    simp only [Int.toNat_natCast]
    rw [show (name.length : Int) + 1 = ((name.length + 1 : Nat) : Int) from rfl, hwrite, Option.map_some,
      if_neg hwritten]
  · rw [Kernel.dirReadIdxNew_foldl_emit, hnext]
  · rw [Kernel.callerPcb_foldl_emit, hpcb, hflags]

/-- The rest of the directory, from the index of the reader on. -/
theorem breaks_ls (hwf : fs.WellFormed) : ∀ (m : Nat) {k : Kernel} (buf : Nat → UInt8),
    fs.numDentries = k.dirReadIdxNew + m → k.Running → (k.callerPcb.fdsArray 2).flags = dirFlag →
    ∃ k', Breaks (fun _ => printPass (kernelCalls fs us) lsLoop 2) (buf, k) (0, k') ∧
      k.Ran ((List.range' k.dirReadIdxNew m).flatMap (lsLine fs)) k' ∧ k'.dirReadIdxNew = 0 := by
  intro m
  induction m with
  | zero =>
      intro k buf hm hk hflags
      have hend : ¬ k.dirReadIdxNew < fs.numDentries := by omega
      have hread := read_listed fs us hk hflags
      rw [FileSys.listed, if_neg hend] at hread
      refine ⟨(k.dirReadnew fs).2, .here ?_, (dirReadnew_ran k fs).1, ?_⟩
      · simp only [printPass, lsLoop]
        rw [hread]
        exact yields_some _
      · rw [(dirReadnew_eq fs k).2, if_neg hend]
  | succ m ih =>
      intro k buf hm hk hflags
      obtain ⟨buf', k₁, hpass, hran, hnext, hflags₁⟩ :=
        printPass_entry us hwf hk hflags (by omega) buf
      obtain ⟨k', hrest, hran', hidx⟩ := ih buf' (by omega) (hk.ran hran) hflags₁
      refine ⟨k', .pass (hpass ▸ yields_some _) hrest, ?_, hidx⟩
      rw [List.range'_succ, List.flatMap_cons, ← hnext]
      exact hran.trans hran'

end Loop

/-- **`ls` prints the directory**, or that there is none. -/
theorem ls_prints (fs : FileSys) (hwf : fs.WellFormed) (us : UserSpace)
    (buf : Nat → UInt8) (args : List UInt8) :
    (fs.readDentryByName dotName = none → Prints (ls (kernelCalls fs us) buf) args dirOpenFailedText 2) ∧
    ∀ d, fs.readDentryByName dotName = some d → d.fileType = dirType →
      Prints (ls (kernelCalls fs us) buf) args (lsText fs) 0 := by
  have hliteral : LiteralText dotName := by constructor <;> simp [dotName]
  have hdot : cstr (memBytes us.span (literal dotName)) = cstr dotName := by
    rw [hliteral.cstr_memBytes, cstr_of_no_nul hliteral.ne_zero]
  have hname : Unreserved (memBytes us.span (literal dotName)) :=
    (show Unreserved dotName by decide +kernel).congr hdot
  refine ⟨fun hmissing k hk => ?_, fun d hd htype k hk => ?_⟩
  · have hopen := k.openFile_missing hname ((fs.readDentryByName_congr hdot).trans hmissing)
    have htext : LiteralText dirOpenFailedText := by constructor <;> simp [dirOpenFailedText]
    have hput := Kernel.putLiteral_stdout fs us htext hk.flags
    refine ⟨dirOpenFailedText.foldl Kernel.emit k, ⟨0, fun fuel _ => ?_⟩, .print k _, ?_⟩
    · simp only [ls]
      rw [show (kernelCalls fs us).ece391Open (literal dotName) k = some (-1, k) from congrArg some hopen,
        Option.bind_some, if_pos rfl, hput]
      rfl
    · rw [Kernel.dirReadIdxNew_foldl_emit, hk.listing]
  · obtain ⟨q, hq, hedit, hopen⟩ := k.openFile_first hk.files hname
      ((fs.readDentryByName_congr hdot).trans hd) (Or.inl htype)
    have hran : k.Ran [] (k.edited q k.dirReadIdxNew) := .edit hedit
    have hflags : ((k.edited q k.dirReadIdxNew).callerPcb.fdsArray 2).flags = dirFlag := by
      obtain ⟨q', hq', hdir, -⟩ := Kernel.openSlot_known k.callerPcb 2
        (memBytes us.span (literal dotName)) (Or.inr (Or.inl htype))
      rw [Kernel.callerPcb_edited, Option.some_inj.1 (hq.symm.trans hq'), hdir, htype]
      rfl
    obtain ⟨k', hbreaks, hran', hidx⟩ := breaks_ls us hwf fs.numDentries buf
      (by rw [show (k.edited q k.dirReadIdxNew).dirReadIdxNew = k.dirReadIdxNew from rfl, hk.listing, Nat.zero_add])
      (hk.ran hran) hflags
    refine ⟨k', ?_, ?_, hidx⟩
    · refine hbreaks.yields.congr (fun fuel => ?_)
      simp only [ls]
      rw [show (kernelCalls fs us).ece391Open (literal dotName) k = some (2, k.edited q k.dirReadIdxNew) from
        congrArg some hopen, Option.bind_some, if_neg (show ¬ (2 : Int) = -1 by decide)]
    · rw [show (k.edited q k.dirReadIdxNew).dirReadIdxNew = 0 from hk.listing] at hran'
      rw [lsText, List.range_eq_range']
      exact hran.trans hran'

/-- `ls` lists the directory of the examples. -/
theorem ls_prints_sample :
    Prints (ls (kernelCalls sampleFs sampleSpace) fun _ => 0) []
      (dotName ++ [10] ++ shellName ++ [10] ++ dataName ++ [10] ++ noteName ++ [10]) 0 := by
  have hsome : (sampleFs.readDentryByName dotName).isSome := by decide +kernel
  obtain ⟨d, hd⟩ := Option.isSome_iff_exists.1 hsome
  have htype : (sampleFs.readDentryByName dotName).map (fun d => d.fileType) = some dirType := by decide +kernel
  rw [hd, Option.map_some, Option.some.injEq] at htype
  have htext : lsText sampleFs = dotName ++ [10] ++ shellName ++ [10] ++ dataName ++ [10] ++ noteName ++ [10] := by
    decide +kernel
  rw [← htext]
  exact (ls_prints sampleFs sampleFs_wellFormed sampleSpace (fun _ => 0) []).2 d hd htype

end UnixTerminal
