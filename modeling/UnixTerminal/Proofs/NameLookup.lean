import UnixTerminal.Proofs.Image

set_option autoImplicit false

/-! # The directory lookups

`read_dentry_by_name` compares with `strncmp` over the length of the name it looks for, and with two
lengths. Together this is equality of the two strings (`dentryMatches_iff`), so that the search finds
the first entry of that name, for names of 1 to 32 characters. Both lookups are shown with the memory
behind their pointer: what they leave there, and that a failed one leaves it alone. -/

namespace UnixTerminal

/-! ## `strcpy` into a field -/

/-- A copy that fits into the field from `i` on: the bytes in front of it, the string with its NUL,
    and the bytes behind it. -/
theorem strcpy_set (s : List UInt8) : ∀ (l : List UInt8) (i : Nat), i + strlen s < l.length →
    strcpy List.set l i s = l.take i ++ cstr s ++ 0 :: l.drop (i + strlen s + 1) := by
  have hnul : ∀ (l : List UInt8) (i : Nat), i < l.length → l.set i 0 = l.take i ++ 0 :: l.drop (i + 1) :=
    fun l i hi => List.set_eq_take_append_cons_drop ▸ if_pos hi
  induction s with
  | nil =>
      intro l i hi
      rw [strcpy, hnul l i hi, cstr, List.takeWhile_nil, List.append_nil, strlen, Nat.add_zero]
  | cons c s ih =>
      intro l i hi
      rw [strcpy]
      split
      · next hc =>
          have hlen : strlen (c :: s) = 0 := by rw [strlen, if_pos hc]
          rw [hlen] at hi ⊢
          rw [hnul l i hi, cstr_cons, if_pos hc, List.append_nil, Nat.add_zero]
      · next hc =>
          have hlen : strlen (c :: s) = strlen s + 1 := by rw [strlen, if_neg hc]
          rw [hlen] at hi ⊢
          rw [ih (l.set i c) (i + 1) (by rw [List.length_set]; omega), cstr_cons, if_neg hc]
          have hpre : (l.set i c).take (i + 1) = l.take i ++ [c] := by
            rw [List.take_add_one, List.take_set_of_le (Nat.le_refl i)]
            simp [(by omega : i < l.length)]
          have hpost : (l.set i c).drop (i + 1 + strlen s + 1) = l.drop (i + 1 + strlen s + 1) :=
            List.drop_set_of_lt (by omega)
          rw [hpre, hpost]
          simp [Nat.add_assoc, Nat.add_comm]

/-- What a C program reads in the field afterwards. -/
theorem cstr_strcpy_set (s l : List UInt8) (h : strlen s < l.length) :
    cstr (strcpy List.set l 0 s) = cstr s := by
  rw [strcpy_set s l 0 (by omega), List.take_zero, List.nil_append]
  exact cstr_append_nul (fun _ hc => ne_zero_of_mem_cstr hc) _

namespace FileSys

variable (fs : FileSys)

/-! ## By name -/

theorem fillDentry_eq {fname : List UInt8} (h : strlen fname ≤ maxFileChar) (i : Nat) :
    fs.fillDentry fname i =
      { fileName := cstr fname ++ 0 :: List.replicate (maxFileChar - strlen fname) 32
        fileType := (fs.myDentry i).fileType
        inode := (fs.myDentry i).inode } := by
  have hfits : 0 + strlen fname < (List.replicate (maxFileChar + 1) (32 : UInt8)).length := by
    rw [List.length_replicate]
    omega
  have hrest : maxFileChar + 1 - (0 + strlen fname + 1) = maxFileChar - strlen fname := by omega
  rw [fillDentry, strcpy_set fname _ 0 hfits, List.take_zero, List.nil_append, List.drop_replicate,
    hrest]

/-- The loop stops at the first entry that matches. -/
theorem dentryLoop_eq (fname : List UInt8) (dentry : Dentry) (todo : Nat) : ∀ i,
    fs.dentryLoop fname dentry todo i =
      match (List.range' i todo).find? (fs.dentryMatches fname) with
      | some j => (0, fs.fillDentry fname j)
      | none => (-1, dentry) := by
  induction todo with
  | zero => intro i; rfl
  | succ todo ih =>
      intro i
      rw [dentryLoop, List.range'_succ, List.find?_cons, ih (i + 1)]
      cases fs.dentryMatches fname i <;> rfl

/-- The lookup with its destination is the lookup that delivers an entry. -/
theorem readDentryByNameInto_eq (fname : List UInt8) (dentry : Dentry) :
    fs.readDentryByNameInto fname dentry =
      match fs.readDentryByName fname with
      | some d => (0, d)
      | none => (-1, dentry) := by
  unfold readDentryByNameInto readDentryByName
  split_ifs with hempty hlong
  · rfl
  · rfl
  · rw [dentryLoop_eq, ← List.range_eq_range']
    cases (List.range fs.numDentries).find? (fs.dentryMatches fname) with
    | none => rfl
    | some j => exact congrArg (fun d => ((0 : Int), d)) (fs.fillDentry_eq (Nat.not_lt.1 hlong) j)

/-- The two ways the lookup ends. -/
theorem readDentryByNameInto_cases (fname : List UInt8) (dentry : Dentry) :
    (∃ d, fs.readDentryByName fname = some d ∧ fs.readDentryByNameInto fname dentry = (0, d)) ∨
    (fs.readDentryByName fname = none ∧ fs.readDentryByNameInto fname dentry = (-1, dentry)) := by
  rw [readDentryByNameInto_eq]
  cases fs.readDentryByName fname with
  | none => exact Or.inr ⟨rfl, rfl⟩
  | some d => exact Or.inl ⟨d, rfl, rfl⟩

/-- A name is found when it has 1 to 32 characters and is the name of an entry. -/
theorem isSome_readDentryByName (fname : List UInt8) :
    (fs.readDentryByName fname).isSome = true ↔
      1 ≤ strlen fname ∧ strlen fname ≤ 32 ∧ ∃ i, i < fs.numDentries ∧ fs.entryName i = cstr fname := by
  unfold readDentryByName
  split_ifs with hempty hlong
  · simp only [Option.isSome_none, Bool.false_eq_true, false_iff]
    exact fun h => absurd h.1 (by omega)
  · simp only [maxFileChar] at hlong
    simp only [Option.isSome_none, Bool.false_eq_true, false_iff]
    exact fun h => absurd h.2.1 (by omega)
  · simp only [maxFileChar] at hlong
    rw [Option.isSome_map, List.find?_isSome]
    simp only [List.mem_range, dentryMatches_iff]
    exact ⟨fun h => ⟨by omega, by omega, h⟩, fun h => h.2.2⟩

/-- What is found is the first entry of that name, under the name that was asked for. -/
theorem readDentryByName_first {fname : List UInt8} {d : Dentry}
    (h : fs.readDentryByName fname = some d) :
    ∃ i, i < fs.numDentries ∧ fs.entryName i = cstr fname ∧
      (∀ j, j < i → fs.entryName j ≠ cstr fname) ∧
      d.fileType = (fs.myDentry i).fileType ∧ d.inode = (fs.myDentry i).inode ∧
      cstr d.fileName = cstr fname := by
  unfold readDentryByName at h
  split_ifs at h
  obtain ⟨i, hi, rfl⟩ := Option.map_eq_some_iff.1 h
  obtain ⟨hmatch, hmem, hfirst⟩ := List.find?_range_eq_some.1 hi
  refine ⟨i, List.mem_range.1 hmem, (fs.dentryMatches_iff fname i).1 hmatch, fun j hj heq => ?_, rfl,
    rfl, cstr_append_nul (fun _ hc => ne_zero_of_mem_cstr hc) _⟩
  have hnot := hfirst j hj
  rw [(fs.dentryMatches_iff fname j).2 heq] at hnot
  exact absurd hnot (by decide)

end FileSys

/-! ## A decoded table -/

/-- The name of an entry in the image: its field up to the first NUL, 32 bytes at most. -/
def fieldName (image : Nat → UInt8) (i : Nat) : List UInt8 :=
  cstr ((List.range 32).map (fun j => image (64 + 64 * i + j)))

theorem cstr_append_zero (s : List UInt8) : cstr (s ++ [0]) = cstr s := by
  induction s with
  | nil => rfl
  | cons c s ih => rw [List.cons_append, cstr_cons, cstr_cons, ih]

theorem entryName_fileInit (image : Nat → UInt8) (i : Nat) :
    (fileInit image).entryName i = fieldName image i :=
  cstr_append_zero _

theorem length_fieldName_le (image : Nat → UInt8) (i : Nat) : (fieldName image i).length ≤ 32 := by
  have h : (fieldName image i).length ≤ ((List.range 32).map (fun j => image (64 + 64 * i + j))).length :=
    (List.takeWhile_sublist _).length_le
  rwa [List.length_map, List.length_range] at h

theorem cstr_fileName_dentryAt (image : Nat → UInt8) (i : Nat) :
    cstr (dentryAt image i).fileName = fieldName image i :=
  entryName_fileInit image i

theorem strlen_fileName_dentryAt (image : Nat → UInt8) (i : Nat) :
    strlen (dentryAt image i).fileName = (fieldName image i).length := by
  rw [strlen_eq_length_cstr, cstr_fileName_dentryAt]

/-- An entry is found by its name when no other entry has it. -/
theorem readDentryByNameInto_own {image : Nat → UInt8} {i : Nat} (hi : i < (fileInit image).numDentries)
    (hne : fieldName image i ≠ [])
    (huniq : ∀ j, j < (fileInit image).numDentries → fieldName image j = fieldName image i → j = i)
    (dentry : Dentry) :
    ∃ d, (fileInit image).readDentryByNameInto (dentryAt image i).fileName dentry = (0, d) ∧
      d.fileType = (dentryAt image i).fileType ∧ d.inode = (dentryAt image i).inode ∧
      cstr d.fileName = fieldName image i := by
  have hlen := strlen_fileName_dentryAt image i
  have hle := length_fieldName_le image i
  have hpos : 1 ≤ (fieldName image i).length := List.length_pos_iff.2 hne
  have hsome : ((fileInit image).readDentryByName (dentryAt image i).fileName).isSome = true := by
    refine ((fileInit image).isSome_readDentryByName _).2 ⟨by omega, by omega, i, hi, ?_⟩
    rw [entryName_fileInit, cstr_fileName_dentryAt]
  rcases (fileInit image).readDentryByNameInto_cases (dentryAt image i).fileName dentry with
    ⟨d, hd, hinto⟩ | ⟨hd, -⟩
  · obtain ⟨j, hj, hjname, -, htype, hinode, hdname⟩ := (fileInit image).readDentryByName_first hd
    rw [entryName_fileInit, cstr_fileName_dentryAt] at hjname
    obtain rfl : j = i := huniq j hj hjname
    exact ⟨d, hinto, htype, hinode, hdname.trans (cstr_fileName_dentryAt image j)⟩
  · rw [hd] at hsome
    exact Bool.noConfusion hsome

/-- And by its index, with the same name, type and inode. -/
theorem readDentryByIndexInto_own {image : Nat → UInt8} {i : Nat} (hi : i < (fileInit image).numDentries)
    {dentry : Dentry} (hlen : dentry.fileName.length = maxFileChar + 1) :
    ∃ d, (fileInit image).readDentryByIndexInto i dentry = (0, d) ∧
      d.fileType = (dentryAt image i).fileType ∧ d.inode = (dentryAt image i).inode ∧
      cstr d.fileName = fieldName image i := by
  have hle := length_fieldName_le image i
  have hfits : strlen (dentryAt image i).fileName < dentry.fileName.length := by
    rw [strlen_fileName_dentryAt, hlen, maxFileChar]
    omega
  refine ⟨_, if_neg (Nat.not_le.2 hi), rfl, rfl, ?_⟩
  exact (cstr_strcpy_set _ _ hfits).trans (cstr_fileName_dentryAt image i)

/-- **Name lookup is exact.** It succeeds for the names of 1 to 32 characters that the table has, and
    then delivers the first entry of that name; a lookup that fails writes nothing. An entry whose name
    is not empty and its own is found by its name as it is by its index. -/
theorem name_lookup_exact (image : Nat → UInt8) (fname : List UInt8) (dentry : Dentry) :
    (((fileInit image).readDentryByNameInto fname dentry).1 = 0 ↔
      1 ≤ strlen fname ∧ strlen fname ≤ 32 ∧
        ∃ i, i < (fileInit image).numDentries ∧ fieldName image i = cstr fname) ∧
    (((fileInit image).readDentryByNameInto fname dentry).1 = 0 →
      ∃ i, i < (fileInit image).numDentries ∧ fieldName image i = cstr fname ∧
        (∀ j, j < i → fieldName image j ≠ cstr fname) ∧
        ((fileInit image).readDentryByNameInto fname dentry).2.fileType = (dentryAt image i).fileType ∧
        ((fileInit image).readDentryByNameInto fname dentry).2.inode = (dentryAt image i).inode ∧
        cstr ((fileInit image).readDentryByNameInto fname dentry).2.fileName = cstr fname) ∧
    (((fileInit image).readDentryByNameInto fname dentry).1 ≠ 0 →
      (fileInit image).readDentryByNameInto fname dentry = (-1, dentry)) ∧
    ∀ i, i < (fileInit image).numDentries → fieldName image i ≠ [] →
      (∀ j, j < (fileInit image).numDentries → fieldName image j = fieldName image i → j = i) →
      dentry.fileName.length = maxFileChar + 1 →
      ∃ d d', (fileInit image).readDentryByNameInto (dentryAt image i).fileName dentry = (0, d) ∧
        (fileInit image).readDentryByIndexInto i dentry = (0, d') ∧
        d.fileType = d'.fileType ∧ d.inode = d'.inode ∧
        cstr d.fileName = cstr d'.fileName ∧ cstr d'.fileName = fieldName image i := by
  have hcases := (fileInit image).readDentryByNameInto_cases fname dentry
  refine ⟨?_, fun h0 => ?_, fun h0 => ?_, fun i hi hne huniq hlen => ?_⟩
  · have hsome := (fileInit image).isSome_readDentryByName fname
    simp only [entryName_fileInit] at hsome
    rw [← hsome]
    rcases hcases with ⟨d, hd, hinto⟩ | ⟨hd, hinto⟩
    · simp [hd, hinto]
    · simp [hd, hinto]
  · rcases hcases with ⟨d, hd, hinto⟩ | ⟨-, hinto⟩
    · have hfirst := (fileInit image).readDentryByName_first hd
      simp only [entryName_fileInit] at hfirst
      rw [hinto]
      exact hfirst
    · rw [hinto] at h0
      have hfailed : (-1 : Int) = 0 := h0
      exact absurd hfailed (by decide)
  · rcases hcases with ⟨d, -, hinto⟩ | ⟨-, hinto⟩
    · rw [hinto] at h0
      exact absurd rfl h0
    · exact hinto
  · obtain ⟨d, hinto, htype, hinode, hname⟩ := readDentryByNameInto_own hi hne huniq dentry
    obtain ⟨d', hinto', htype', hinode', hname'⟩ := readDentryByIndexInto_own hi hlen
    exact ⟨d, d', hinto, hinto', htype.trans htype'.symm, hinode.trans hinode'.symm,
      hname.trans hname'.symm, hname'⟩

/-- `data` is found by its name and by its index. -/
theorem name_lookup_data :
    ∃ d d', sampleFs.readDentryByNameInto (dentryAt sampleImage 2).fileName ⟨List.replicate 33 0, 0, 0⟩
        = (0, d) ∧
      sampleFs.readDentryByIndexInto 2 ⟨List.replicate 33 0, 0, 0⟩ = (0, d') ∧
      cstr d.fileName = cstr d'.fileName := by
  have hnum : (fileInit sampleImage).numDentries = 4 := by decide +kernel
  have huniq : ∀ j < 4, fieldName sampleImage j = fieldName sampleImage 2 → j = 2 := by decide +kernel
  obtain ⟨d, d', h, h', -, -, hname, -⟩ :=
    (name_lookup_exact sampleImage dataName ⟨List.replicate 33 0, 0, 0⟩).2.2.2 2 (by rw [hnum]; decide)
      (by decide +kernel) (fun j hj => huniq j (hnum ▸ hj)) (by decide)
  exact ⟨d, d', h, h', hname⟩

end UnixTerminal
