import UnixTerminal.Programs.Calls

set_option autoImplicit false

/-! # The shell

`main` of `ece391shell.c`, over the calls of a user program. -/

namespace UnixTerminal

/-! ## Texts -/

/-- `"Starting 391 Shell\n"` -/
def startingText : List UInt8 :=
  [83, 116, 97, 114, 116, 105, 110, 103, 32, 51, 57, 49, 32, 83, 104, 101, 108, 108, 10]

/-- `"391OS> "` -/
def promptText : List UInt8 := [51, 57, 49, 79, 83, 62, 32]

/-- `"read from keyboard failed\n"` -/
def keyboardFailedText : List UInt8 :=
  [114, 101, 97, 100, 32, 102, 114, 111, 109, 32, 107, 101, 121, 98, 111, 97, 114, 100, 32, 102, 97, 105,
   108, 101, 100, 10]

/-- `"exit"` -/
def exitName : List UInt8 := [101, 120, 105, 116]

/-- `"no such command\n"` -/
def noCommandText : List UInt8 :=
  [110, 111, 32, 115, 117, 99, 104, 32, 99, 111, 109, 109, 97, 110, 100, 10]

/-- `"program terminated by exception\n"` -/
def exceptionText : List UInt8 :=
  [112, 114, 111, 103, 114, 97, 109, 32, 116, 101, 114, 109, 105, 110, 97, 116, 101, 100, 32, 98, 121, 32,
   101, 120, 99, 101, 112, 116, 105, 111, 110, 10]

/-- `"program terminated abnormally\n"` -/
def abnormalText : List UInt8 :=
  [112, 114, 111, 103, 114, 97, 109, 32, 116, 101, 114, 109, 105, 110, 97, 116, 101, 100, 32, 97, 98, 110,
   111, 114, 109, 97, 108, 108, 121, 10]

/-- What the shell prints for the value of `ece391_execute`; nothing for 0. -/
def statusText (rval : Int) : List UInt8 :=
  if rval = -1 then noCommandText
  else if rval = 256 then exceptionText
  else if rval ≠ 0 then abnormalText
  else []

/-! ## The program -/

/-- One pass of `while (*s1 == *s2)`, with both pointers moved by `i`. -/
def strcmpPass (s1 s2 : Nat → UInt8) (i : Nat) : Option (Int ⊕ Nat) :=
  some (if s1 i = s2 i then (if s1 i = 0 then .inl 0 else .inr (i + 1))
    else .inl (((s1 i).toNat : Int) - (s2 i).toNat))

/-- `ece391_strcmp` -/
def ece391Strcmp (s1 s2 : Nat → UInt8) (fuel : Nat) : Option Int := foreverRun (strcmpPass s1 s2) fuel 0

section Shell

variable {σ : Type} (calls : UserCalls σ)

/-- One pass of the loop of `main`. -/
def shellPass (fuel : Nat) : (Nat → UInt8) × σ → Option ((Int × σ) ⊕ (Nat → UInt8) × σ)
  | (buf, sys) =>
      (calls.putLiteral promptText sys).bind fun sys =>
        (calls.ece391Read 0 1023 sys).bind fun (t, sys) =>
          let buf := t.store buf
          if t.ret = -1 then (calls.putLiteral keyboardFailedText sys).map fun sys => .inl (3, sys)
          else
            let cnt := if t.ret > 0 ∧ buf (t.ret - 1).toNat = 10 then t.ret - 1 else t.ret
            let buf := Function.update buf cnt.toNat 0
            (ece391Strcmp buf (literal exitName) fuel).bind fun differs =>
              if differs = 0 then some (.inl (0, sys))
              else if buf 0 = 0 then some (.inr (buf, sys))
              else
                (calls.ece391Execute buf sys).bind fun (rval, sys) =>
                  if rval = 0 then some (.inr (buf, sys))
                  else (calls.putLiteral (statusText rval) sys).map fun sys => .inr (buf, sys)

/-- `main` of the shell. -/
def shell (buf : Nat → UInt8) (sys : σ) (fuel : Nat) : Option (Int × σ) :=
  (calls.putLiteral startingText sys).bind fun sys => foreverRun (shellPass calls fuel) fuel (buf, sys)

end Shell

end UnixTerminal
