import UnixTerminal.Kernel.Scheduler

set_option autoImplicit false

/-! # `halt`, statement by statement

The system-call gate is a trap gate: `halt` runs with interrupts on until it loads the parent's frame,
and a PIT tick may come between any two of its statements. `haltStmt` is the code of `halt` (and, with
256 for the status, of `halt_from_exc`) as a thread: one statement at a time, with the local variables
in `HaltLocals`. -/

namespace UnixTerminal

/-- The local variables of `halt` (`cur_pcb_fd` is the table of `cur_pcb`). -/
structure HaltLocals where
  childPcb : UInt32
  curPpid : UInt32
  curPcb : UInt32

/-- The statements of `halt`, in their order. -/
inductive HaltStmt
  /-- `end_process(curr_process)` -/
  | endProcess
  /-- `child_pcb = …(curr_process + 1)` -/
  | childPcb
  /-- `if(child_pcb->PPID == -1){ … }` -/
  | root
  /-- `cur_ppid = …(curr_process + 1)->PPID` -/
  | curPpid
  /-- `cur_pcb = …(cur_ppid + 1)` -/
  | curPcb
  /-- `tss.esp0 = … cur_ppid …` -/
  | tss
  /-- `curr_process = cur_ppid` -/
  | currProcess
  /-- `set_curr_process(curr_process)` -/
  | setCurrProcess
  /-- `map(VIRTUAL_FILE_PAGE, … cur_ppid)` -/
  | map
  /-- `if(cur_pcb_fd[i].flags != 0)` -/
  | testFd (i : Nat)
  /-- `close(i)` -/
  | closeFd (i : Nat)
  /-- The assembly that loads the frame. -/
  | load
deriving DecidableEq

/-- Where the closing loop goes behind its pass for slot `i`. -/
def HaltStmt.afterFd (i : Nat) : HaltStmt := if i + 1 < 8 then .testFd (i + 1) else .load

/-- A point of `halt`: the next statement and the local variables. -/
abbrev HaltPoint := HaltStmt × HaltLocals

/-- One statement of `halt`. The branch for a root process is one statement: `execute` ends it, or
    returns and the code runs on. -/
def haltStmt (fs : FileSys) (eax : UInt32) (env : ExecEnv) (p : HaltPoint) (k : Kernel) :
    (HaltPoint ⊕ HaltOutcome) × Kernel :=
  let l := p.2
  match p.1 with
  | .endProcess => (.inl (.childPcb, l), k.endProcess k.currProcess)
  | .childPcb => (.inl (.root, { l with childPcb := getPcbPointer k.currProcess }), k)
  | .root =>
      if (k.pcb l.childPcb).ppid = minusOne then
        match (k.setTerminal k.currTerminalNumber (fun t => { t with active := 0 })).execute fs
            shellName env with
        | (.started entry, k) => (.inr (.restarted entry), k)
        | (.returned _, k) => (.inl (.curPpid, l), k)
      else (.inl (.curPpid, l), k)
  | .curPpid => (.inl (.curPcb, { l with curPpid := (k.pcb (getPcbPointer k.currProcess)).ppid }), k)
  | .curPcb => (.inl (.tss, { l with curPcb := getPcbPointer l.curPpid }), k)
  | .tss => (.inl (.currProcess, l), { k with tssEsp0 := kernelStack l.curPpid })
  | .currProcess => (.inl (.setCurrProcess, l), { k with currProcess := l.curPpid })
  | .setCurrProcess => (.inl (.map, l), k.setCurrProcess k.currProcess)
  | .map => (.inl (.testFd 2, l), k.map virtualFilePage (processPage l.curPpid))
  | .testFd i =>
      if ((k.pcb l.curPcb).fdsArray i).flags ≠ 0 then (.inl (.closeFd i, l), k)
      else (.inl (.afterFd i, l), k)
  | .closeFd i => (.inl (.afterFd i, l), (k.close i).2)
  | .load => (.inr (.resumed eax ⟨(k.pcb l.childPcb).esp0, (k.pcb l.childPcb).ebp0⟩), k)

end UnixTerminal
