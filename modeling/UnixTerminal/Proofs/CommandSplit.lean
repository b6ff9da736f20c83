import UnixTerminal.Kernel.CommandLoops
import UnixTerminal.Proofs.Image
import UnixTerminal.Proofs.Transitions

set_option autoImplicit false

/-! # Splitting the command

`CommandSplit` says how a command is to be taken apart, without saying how this is done: the name up to
the first blank or newline, the blanks behind it, and the rest. The loops of `execute` come to this
split for every command (`parseName_eq`, `copyArgs_eq`), and while it fits the arrays, `execute` with
its loops is the `execute` of the model (`executeLoops_eq`). -/

namespace UnixTerminal

/-! ## Splitting a command -/

/-- A command is `name`, then `blanks` blanks, then `rest`. -/
structure CommandSplit (command name rest : List UInt8) (blanks : Nat) : Prop where
  eq : cstr command = name ++ (List.replicate blanks 32 ++ rest)
  name_char : ∀ c ∈ name, c ≠ 32 ∧ c ≠ 10
  name_end : blanks = 0 → rest = [] ∨ rest.head? = some 10
  rest_head : rest.head? ≠ some 32

/-- The bytes behind the string: nothing, or the NUL and what follows. -/
theorem exists_eq_cstr_append (s : List UInt8) : ∃ t, s = cstr s ++ t ∧ t.headD 0 = 0 := by
  induction s with
  | nil => exact ⟨[], rfl, rfl⟩
  | cons c s ih =>
      rw [cstr_cons]
      by_cases hc : c = 0
      · rw [if_pos hc]
        exact ⟨c :: s, rfl, hc⟩
      · rw [if_neg hc]
        obtain ⟨t, ht, h0⟩ := ih
        exact ⟨t, congrArg (c :: ·) ht, h0⟩

/-- Every command has a split. -/
theorem exists_commandSplit (command : List UInt8) :
    ∃ name rest blanks, CommandSplit command name rest blanks := by
  let inName : UInt8 → Bool := fun c => c ≠ 32 && c ≠ 10
  let behind := (cstr command).dropWhile inName
  have hblanks : behind.takeWhile (· == 32) = List.replicate (behind.takeWhile (· == 32)).length 32 :=
    List.eq_replicate_of_mem (fun c hc => by simpa using List.mem_takeWhile_imp hc)
  refine ⟨(cstr command).takeWhile inName, behind.dropWhile (· == 32),
    (behind.takeWhile (· == 32)).length, ?_, fun c hc => ?_, fun h0 => ?_, ?_⟩
  · rw [← hblanks, List.takeWhile_append_dropWhile, List.takeWhile_append_dropWhile]
  · simpa [inName] using List.mem_takeWhile_imp hc
  · -- without blanks, the name ended at a newline or at the end
    have hnil : behind.takeWhile (· == 32) = [] := List.length_eq_zero_iff.1 h0
    have hbehind : behind.dropWhile (· == 32) = behind := by
      have happ := List.takeWhile_append_dropWhile (p := (· == (32 : UInt8))) (l := behind)
      rwa [hnil, List.nil_append] at happ
    rw [hbehind]
    cases hl : behind with
    | nil => exact Or.inl rfl
    | cons c l =>
        have hstop := List.head?_dropWhile_not inName (cstr command)
        rw [show (cstr command).dropWhile inName = c :: l from hl] at hstop
        rw [hl] at hnil
        have h32 : c ≠ 32 := by
          rintro rfl
          simp at hnil
        refine Or.inr (congrArg some ?_)
        simpa [inName, h32] using hstop
  · intro h32
    have hstop := List.head?_dropWhile_not (· == (32 : UInt8)) behind
    rw [h32] at hstop
    simp at hstop

namespace CommandSplit

variable {command name rest : List UInt8} {blanks : Nat} (h : CommandSplit command name rest blanks)

include h

theorem strlen_eq : strlen command = name.length + blanks + rest.length := by
  rw [strlen_eq_length_cstr, h.eq]
  simp [Nat.add_assoc]

theorem name_ne_zero {c : UInt8} (hc : c ∈ name) : c ≠ 0 :=
  ne_zero_of_mem_cstr (by rw [h.eq]; exact List.mem_append_left _ hc)

theorem rest_ne_zero {c : UInt8} (hc : c ∈ rest) : c ≠ 0 :=
  ne_zero_of_mem_cstr (by rw [h.eq]; exact List.mem_append_right _ (List.mem_append_right _ hc))

/-- The whole memory from the pointer on. -/
theorem exists_tail :
    ∃ t, command = name ++ (List.replicate blanks 32 ++ (rest ++ t)) ∧ t.headD 0 = 0 := by
  obtain ⟨t, ht, h0⟩ := exists_eq_cstr_append command
  refine ⟨t, ?_, h0⟩
  rw [h.eq] at ht
  simpa using ht

/-! ### The characters of the command -/

theorem charAt_name {n : Nat} (hn : n < name.length) : charAt command n = name[n] := by
  obtain ⟨t, rfl, -⟩ := h.exists_tail
  rw [charAt, List.getD_append _ _ _ _ hn, List.getD_eq_getElem _ _ hn]

theorem charAt_blank {n : Nat} (hn : n < blanks) : charAt command (name.length + n) = 32 := by
  obtain ⟨t, rfl, -⟩ := h.exists_tail
  have hlen : n < (List.replicate blanks (32 : UInt8)).length := by simpa using hn
  rw [charAt, List.getD_append_right _ _ _ _ (Nat.le_add_right _ _), Nat.add_sub_cancel_left,
    List.getD_append _ _ _ _ hlen, List.getD_eq_getElem _ _ hlen, List.getElem_replicate]

theorem charAt_behind (n : Nat) :
    ∃ t : List UInt8, t.headD 0 = 0 ∧
      charAt command (name.length + blanks + n) = (rest ++ t).getD n 0 := by
  obtain ⟨t, rfl, h0⟩ := h.exists_tail
  refine ⟨t, h0, ?_⟩
  rw [charAt, Nat.add_assoc, List.getD_append_right _ _ _ _ (Nat.le_add_right _ _),
    Nat.add_sub_cancel_left, List.getD_append_right _ _ _ _ (by simp), List.length_replicate,
    Nat.add_sub_cancel_left]

theorem charAt_rest {n : Nat} (hn : n < rest.length) :
    charAt command (name.length + blanks + n) = rest[n] := by
  obtain ⟨t, -, ht⟩ := h.charAt_behind n
  rw [ht, List.getD_append _ _ _ _ hn, List.getD_eq_getElem _ _ hn]

theorem charAt_end : charAt command (name.length + blanks + rest.length) = 0 := by
  obtain ⟨t, h0, ht⟩ := h.charAt_behind rest.length
  rw [ht, List.getD_append_right _ _ _ _ (Nat.le_refl _), Nat.sub_self]
  cases t with
  | nil => rfl
  | cons c t => exact h0

/-- Behind the blanks there is no blank. -/
theorem charAt_ne_blank : charAt command (name.length + blanks) ≠ 32 := by
  cases rest with
  | nil =>
      rw [show charAt command (name.length + blanks) = 0 from h.charAt_end]
      decide
  | cons c r =>
      rw [show charAt command (name.length + blanks) = c from h.charAt_rest (Nat.succ_pos r.length)]
      exact fun h32 => h.rest_head (congrArg some h32)

/-- The character that ends the name. -/
theorem charAt_name_end :
    charAt command name.length = 0 ∨ charAt command name.length = 32 ∨
      charAt command name.length = 10 := by
  cases blanks with
  | succ b => exact Or.inr (Or.inl (h.charAt_blank (Nat.succ_pos b)))
  | zero =>
      rcases h.name_end rfl with rfl | hnl
      · exact Or.inl h.charAt_end
      · cases rest with
        | nil => simp at hnl
        | cons c r =>
            obtain rfl : c = 10 := by simpa using hnl
            exact Or.inr (Or.inr (h.charAt_rest (Nat.succ_pos r.length)))

/-! ### The functions of the model -/

theorem commandName_eq : commandName command = name := by
  obtain ⟨t, ht, h0⟩ := h.exists_tail
  have hname : ∀ c ∈ name, decide (c ≠ 0 ∧ c ≠ 32 ∧ c ≠ 10) = true :=
    fun c hc => decide_eq_true ⟨h.name_ne_zero hc, h.name_char c hc⟩
  rw [ht, commandName, List.takeWhile_append_of_pos hname]
  -- the word ends here, by a blank, a newline or the NUL
  have hstop : (List.replicate blanks 32 ++ (rest ++ t)).takeWhile
      (fun c => decide (c ≠ 0 ∧ c ≠ 32 ∧ c ≠ 10)) = [] := by
    cases blanks with
    | succ b => simp [List.replicate_succ]
    | zero =>
        rcases h.name_end rfl with rfl | hnl
        · cases t with
          | nil => rfl
          | cons c t =>
              obtain rfl : c = 0 := h0
              simp
        · cases rest with
          | nil => simp at hnl
          | cons c r =>
              obtain rfl : c = 10 := by simpa using hnl
              simp
  rw [hstop, List.append_nil]

theorem exists_commandRest :
    ∃ t, command = name ++ (List.replicate blanks 32 ++ (rest ++ t)) ∧ t.headD 0 = 0 ∧
      commandRest command = rest ++ t := by
  obtain ⟨t, ht, h0⟩ := h.exists_tail
  refine ⟨t, ht, h0, ?_⟩
  have hdrop : command.drop name.length = List.replicate blanks 32 ++ (rest ++ t) := by
    rw [ht, List.drop_left]
  rw [commandRest, h.commandName_eq, hdrop,
    List.dropWhile_append_of_pos (fun c hc => by simpa using List.eq_of_mem_replicate hc)]
  cases rest with
  | nil =>
      cases t with
      | nil => rfl
      | cons c t =>
          obtain rfl : c = 0 := h0
          rfl
  | cons c r =>
      have hc : c ≠ 32 := fun h32 => h.rest_head (congrArg some h32)
      rw [List.cons_append, List.dropWhile_cons_of_neg (by simpa using hc)]

theorem argStart_eq : argStart command = name.length + blanks := by
  obtain ⟨t, ht, -, hrest⟩ := h.exists_commandRest
  have hlen := congrArg List.length ht
  simp only [List.length_append, List.length_replicate] at hlen
  rw [argStart, hrest, List.length_append]
  omega

theorem cstr_commandRest : cstr (commandRest command) = rest := by
  obtain ⟨t, -, h0, ht⟩ := h.exists_commandRest
  rw [ht]
  cases t with
  | nil => rw [List.append_nil, cstr_of_no_nul (fun c hc => h.rest_ne_zero hc)]
  | cons c t =>
      obtain rfl : c = 0 := h0
      exact cstr_append_nul (fun c hc => h.rest_ne_zero hc) t

end CommandSplit

/-! ## The loops -/

/-- `strcpy` as consecutive stores. -/
theorem strcpy_store (a : TracedArray UInt8) (i : Nat) (s : List UInt8) :
    strcpy TracedArray.store a i s = a.write i (cstr s ++ [0]) := by
  induction s generalizing a i with
  | nil => rfl
  | cons c s ih =>
      rw [strcpy, cstr_cons]
      by_cases hc : c = 0
      · rw [if_pos hc, if_pos hc]
        rfl
      · rw [if_neg hc, if_neg hc, ih]
        rfl

/-- The memory that `strcpy` leaves does not depend on the record of its stores. -/
theorem strcpy_update (a : TracedArray UInt8) (i : Nat) (s : List UInt8) :
    strcpy (fun m j c => Function.update m j c) a.mem i s = (a.write i (cstr s ++ [0])).mem := by
  induction s generalizing a i with
  | nil => rfl
  | cons c s ih =>
      rw [strcpy, cstr_cons]
      by_cases hc : c = 0
      · rw [if_pos hc, if_pos hc]
        rfl
      · rw [if_neg hc, if_neg hc]
        exact ih (a.store i c) (i + 1)

/-- The copy agrees with the command up to the NUL. -/
theorem mem_copy (buf : TracedArray UInt8) {command : List UInt8} {n : Nat} (hn : n ≤ strlen command) :
    (buf.write 0 (cstr command ++ [0])).mem n = charAt command n := by
  obtain ⟨t, ht, h0⟩ := exists_eq_cstr_append command
  rw [strlen_eq_length_cstr] at hn
  have hlen : n < (cstr command ++ [0]).length := by
    simp
    omega
  have hread : (buf.write 0 (cstr command ++ [0])).mem n = (cstr command ++ [0])[n] := by
    rw [← buf.mem_write_add (i := 0), Nat.zero_add]
  have hchar : command.getD n 0 = (cstr command ++ t).getD n 0 := by rw [← ht]
  rw [hread, charAt, hchar]
  rcases Nat.lt_or_eq_of_le hn with hlt | rfl
  · rw [List.getElem_append_left hlt, List.getD_append _ _ _ _ hlt, List.getD_eq_getElem _ _ hlt]
  · rw [List.getElem_append_right (Nat.le_refl _), List.getD_append_right _ _ _ _ (Nat.le_refl _)]
    cases t with
    | nil => simp
    | cons c t => simpa using h0.symm

namespace CommandSplit

variable {command name rest : List UInt8} {blanks : Nat} (h : CommandSplit command name rest blanks)
  {fuel : Nat}

include h

/-- The first loop ends behind the name, and has copied it. -/
theorem whileRun_name (buf com : TracedArray UInt8) (hfuel : strlen command ≤ fuel) :
    whileRun (NameScan.goesOn (buf.write 0 (cstr command ++ [0])).mem) (NameScan.pass command) fuel
        ⟨0, 0, com⟩
      = some ⟨name.length, name.length, com.write 0 name⟩ := by
  have hlen := h.strlen_eq
  let after : Nat → NameScan := fun n => ⟨n, n, com.write 0 (name.take n)⟩
  have hpass : ∀ n, n < name.length →
      NameScan.goesOn (buf.write 0 (cstr command ++ [0])).mem (after n) = true ∧
        (after n).pass command = after (n + 1) := by
    intro n hn
    have hread := (mem_copy buf (by omega : n ≤ strlen command)).trans (h.charAt_name hn)
    have hchar := h.name_char _ (List.getElem_mem hn)
    have hnul := h.name_ne_zero (List.getElem_mem hn)
    refine ⟨by simp [after, NameScan.goesOn, hread, hchar, hnul], ?_⟩
    simp only [after, NameScan.pass, h.charAt_name hn]
    rw [com.store_write _ (by simp; omega), List.take_succ_eq_append_getElem hn]
  have hstop : NameScan.goesOn (buf.write 0 (cstr command ++ [0])).mem (after name.length) = false := by
    have hread := mem_copy buf (by omega : name.length ≤ strlen command)
    rcases h.charAt_name_end with he | he | he <;> simp [after, NameScan.goesOn, hread, he]
  have hrun := whileRun_eq hpass hstop (by omega : name.length ≤ fuel)
  simpa [after] using hrun

/-- The second loop skips the blanks. -/
theorem whileRun_blanks (hfuel : strlen command ≤ fuel) :
    whileRun (fun i => charAt command i == 32) (· + 1) fuel name.length
      = some (name.length + blanks) := by
  have hlen := h.strlen_eq
  let after : Nat → Nat := fun n => name.length + n
  have hpass : ∀ n, n < blanks → (charAt command (after n) == 32) = true ∧ after n + 1 = after (n + 1) :=
    fun n hn => ⟨by simp [after, h.charAt_blank hn], Nat.add_assoc _ _ _⟩
  have hstop : (charAt command (after blanks) == 32) = false := by
    simpa [after] using h.charAt_ne_blank
  have hrun : whileRun (fun i => charAt command i == 32) (· + 1) fuel (after 0) = some (after blanks) :=
    whileRun_eq hpass hstop (by omega)
  exact hrun

/-- **`execute` up to `get_process`.** -/
theorem parseName_eq (buf com : TracedArray UInt8) (hfuel : strlen command ≤ fuel) :
    parseName fuel buf com command
      = some ⟨buf.write 0 (cstr command ++ [0]), com.write 0 (name ++ [0]), name.length + blanks⟩ := by
  rw [parseName, strcpy_store]
  dsimp only
  rw [h.whileRun_name buf com hfuel, Option.bind_some]
  dsimp only
  rw [h.whileRun_blanks hfuel, Option.map_some, com.store_write _ (Nat.zero_add _).symm]

/-- **The copy to `args`.** -/
theorem copyArgs_eq (args : TracedArray UInt8) (hfuel : strlen command ≤ fuel) :
    copyArgs fuel args command (name.length + blanks)
      = some (args.write ((name.length + blanks) - (name.length + blanks) % 256) (rest ++ [0])) := by
  have hlen := h.strlen_eq
  have hmod := Nat.mod_le (name.length + blanks) 256
  rw [copyArgs]
  generalize hstart : (name.length + blanks) % 256 = argStart at hmod
  let after : Nat → Nat × TracedArray UInt8 := fun n =>
    (name.length + blanks + n, args.write (name.length + blanks - argStart) (rest.take n))
  have hpass : ∀ n, n < rest.length →
      (charAt command (after n).1 != 0) = true ∧
        ((after n).1 + 1, (after n).2.store ((after n).1 - argStart) (charAt command (after n).1))
          = after (n + 1) := by
    intro n hn
    have hchar := h.rest_ne_zero (List.getElem_mem hn)
    refine ⟨by simp [after, h.charAt_rest hn, hchar], ?_⟩
    simp only [after, h.charAt_rest hn]
    rw [args.store_write _ (by simp; omega), List.take_succ_eq_append_getElem hn, Nat.add_assoc]
  have hstop : (charAt command (after rest.length).1 != 0) = false := by
    simp [after, h.charAt_end]
  have hrun : whileRun (fun s : Nat × TracedArray UInt8 => charAt command s.1 != 0)
      (fun s => (s.1 + 1, s.2.store (s.1 - argStart) (charAt command s.1))) fuel (after 0)
      = some (after rest.length) :=
    whileRun_eq hpass hstop (by omega)
  simp only [after, List.take_zero, TracedArray.write_nil, Nat.add_zero, List.take_length] at hrun
  rw [hrun, Option.map_some, args.store_write _ (by omega)]

end CommandSplit

/-! ## `execute` -/

/-- A string in an array is read up to its NUL. -/
theorem cstr_take_write (a : TracedArray UInt8) {s : List UInt8} (hs : ∀ c ∈ s, c ≠ 0) {n : Nat}
    (hn : s.length < n) : cstr ((a.write 0 (s ++ [0])).take n) = s := by
  rw [a.take_write (by simp; omega), List.append_assoc, List.singleton_append]
  exact cstr_append_nul hs _

/-- The arguments that the model stores are what the last loop leaves. -/
theorem CommandSplit.storeArgs_eq {command name rest : List UInt8} {blanks : Nat}
    (h : CommandSplit command name rest blanks) (args : Nat → UInt8) :
    storeArgs args command
      = ((TracedArray.fresh args).write ((name.length + blanks) - (name.length + blanks) % 256)
          (rest ++ [0])).mem := by
  rw [storeArgs, h.argStart_eq, ← h.cstr_commandRest]
  exact strcpy_update (.fresh args) _ _

namespace Kernel

variable (fs : FileSys) (k : Kernel) {command name rest : List UInt8} {blanks : Nat}
  (h : CommandSplit command name rest blanks) {fuel : Nat} (buf com : Nat → UInt8) (env : ExecEnv)

include h

/-- More fuel than the command is long makes no difference. -/
theorem executeLoops_fuel (hfuel : strlen command ≤ fuel) :
    k.executeLoops fs fuel buf com command env = k.executeLoops fs (strlen command) buf com command env := by
  simp only [executeLoops, h.parseName_eq _ _ hfuel, h.parseName_eq _ _ (Nat.le_refl _),
    Option.bind_some, h.copyArgs_eq _ hfuel, h.copyArgs_eq _ (Nat.le_refl _)]

/-- The stores of every call of `execute`: the whole command to `buf`, the name to `com`, and the rest to
    `args` if a process slot is free. -/
theorem exists_executeLoops :
    ∃ run, (∀ fuel, strlen command ≤ fuel → k.executeLoops fs fuel buf com command env = some run) ∧
      run.bufStores = List.range' 0 (strlen command + 1) ∧
      run.comStores = List.range' 0 (name.length + 1) ∧
      run.argsStores =
        if k.core.freeSlot = none then []
        else List.range' ((name.length + blanks) - (name.length + blanks) % 256) (rest.length + 1) := by
  have hstores : ∀ (mem : Nat → UInt8) i s,
      ((TracedArray.fresh mem).write i s).stores = List.range' i s.length := by
    intro mem i s
    rw [TracedArray.stores_write]
    exact List.nil_append _
  have hrun : ∃ run, k.executeLoops fs (strlen command) buf com command env = some run ∧
      run.bufStores = List.range' 0 (strlen command + 1) ∧
      run.comStores = List.range' 0 (name.length + 1) ∧
      run.argsStores =
        if k.core.freeSlot = none then []
        else List.range' ((name.length + blanks) - (name.length + blanks) % 256) (rest.length + 1) := by
    rw [executeLoops, h.parseName_eq _ _ (Nat.le_refl _), Option.bind_some]
    cases hslot : k.core.freeSlot with
    | none =>
        rw [k.core_getProcess_none hslot]
        exact ⟨_, rfl, by simp [hstores, strlen_eq_length_cstr], by simp [hstores], rfl⟩
    | some i =>
        rw [k.core_getProcess_some hslot]
        dsimp only
        rw [if_neg (ofNat_ne_minusOne (Core.freeSlot_lt hslot)), h.copyArgs_eq _ (Nat.le_refl _),
          Option.map_some]
        exact ⟨_, rfl, by simp [hstores, strlen_eq_length_cstr], by simp [hstores], by simp [hstores]⟩
  obtain ⟨run, heq, hstored⟩ := hrun
  exact ⟨run, fun fuel hfuel => (k.executeLoops_fuel fs h buf com env hfuel).trans heq, hstored⟩

/-- **While the name fits `com`, `execute` with its loops is `execute`.** What it looks up is the name. -/
theorem executeLoops_eq (hfuel : strlen command ≤ fuel) (hname : name.length < bufSize) :
    ∃ run, k.executeLoops fs fuel buf com command env = some run ∧
      (run.outcome, run.kernel) = k.execute fs command env ∧
      (k.core.freeSlot ≠ none → ∃ looked, run.looked = some looked ∧ cstr looked = name) := by
  have hlooked : cstr (((TracedArray.fresh com).write 0 (name ++ [0])).take bufSize) = name :=
    cstr_take_write _ (fun c hc => h.name_ne_zero hc) hname
  rw [executeLoops, h.parseName_eq _ _ hfuel, Option.bind_some, execute]
  cases hslot : k.core.freeSlot with
  | none =>
      rw [k.core_getProcess_none hslot]
      exact ⟨_, rfl, rfl, fun hno => absurd rfl hno⟩
  | some i =>
      rw [k.core_getProcess_some hslot]
      dsimp only
      have hne := ofNat_ne_minusOne (Core.freeSlot_lt hslot)
      rw [if_neg hne, if_neg hne, h.copyArgs_eq _ hfuel, Option.map_some]
      refine ⟨_, rfl, ?_, fun _ => ⟨_, rfl, hlooked⟩⟩
      dsimp only
      generalize ((TracedArray.fresh com).write 0 (name ++ [0])).take bufSize = looked at hlooked
      have hcheck : checkNamed fs looked env.buffer = checkFile fs command env.buffer := by
        have hname' : cstr name = name := cstr_of_no_nul (fun c hc => h.name_ne_zero hc)
        unfold checkFile checkNamed
        rw [h.commandName_eq, fs.readDentryByName_congr (hlooked.trans hname'.symm)]
      rw [executeNamed, hcheck, ← h.storeArgs_eq]
      cases checkFile fs command env.buffer <;> rfl

end Kernel

end UnixTerminal
