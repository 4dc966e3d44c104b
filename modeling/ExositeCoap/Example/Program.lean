import ExositeCoap.Exosite.Arrivals
import ExositeCoap.Exosite.Layout

/-!
# The example program

`main` of `examples/subscribe.c`: a subscription, a write in every hundredth round of the
loop, and a write that reports an error.  The program never ends, so what is modelled is the
program after any number of calls of `exo_operate`; these are the only ones that depend on the
rest of the world.
-/

namespace ExositeCoap.Example

open Lib Exosite

/-! ## Numbers as text -/

/-- The digits of a number in front of `behind`, at most `fuel` of them. -/
def digitsFrom : (fuel number : Nat) → (behind : List UInt8) → List UInt8
  | 0, _, behind => behind
  | fuel + 1, number, behind =>
    let behind := UInt8.ofNat (0x30 + number % 10) :: behind
    if number / 10 = 0 then behind else digitsFrom fuel (number / 10) behind

/-- What `"%llu"` prints; numbers of 64 bits have at most 20 digits. -/
def decimal (number : UInt64) : List UInt8 := digitsFrom 20 number.toNat []

/-- `snprintf(text, 15, "%llu", number)`, where `text` is the array at `address`. -/
def printNumber (heap : Mem) (address : Nat) (number : UInt64) : Exec Mem :=
  heap.store address ((decimal number).take 14 ++ [0])

/-! ## The program -/

/-- Addresses of the string constants and of the arrays of `main`. -/
structure Places where
  vendor : Nat
  model : Nat
  serial : Nat
  command : Nat
  uptime : Nat
  errorcount : Nat
  readStr : Nat
  loopStr : Nat
  errorStr : Nat

/-- The alias "command". -/
def commandText : List UInt8 := [0x63, 0x6F, 0x6D, 0x6D, 0x61, 0x6E, 0x64]

/-- The alias "uptime". -/
def uptimeText : List UInt8 := [0x75, 0x70, 0x74, 0x69, 0x6D, 0x65]

/-- The alias "errorcount". -/
def errorcountText : List UInt8 :=
  [0x65, 0x72, 0x72, 0x6F, 0x72, 0x63, 0x6F, 0x75, 0x6E, 0x74]

/-- The constants of the program, "patrick", "generic_test" and "001" first. -/
def Places.literals (places : Places) : List (Nat × List UInt8) :=
  [(places.vendor, [0x70, 0x61, 0x74, 0x72, 0x69, 0x63, 0x6B]),
   (places.model, [0x67, 0x65, 0x6E, 0x65, 0x72, 0x69, 0x63, 0x5F, 0x74, 0x65, 0x73, 0x74]),
   (places.serial, [0x30, 0x30, 0x31]), (places.command, commandText),
   (places.uptime, uptimeText), (places.errorcount, errorcountText)]

/-- What the program prints. -/
inductive Line where
  | got (aliasText valueText : List UInt8)
  | set (aliasText valueText : List UInt8)
  /-- something succeeded, but it is not known what -/
  | warning
  | error (aliasText : List UInt8) (errorcount : UInt64)
  deriving DecidableEq

/-- The state of `main`, with the lines that it has printed, newest first. -/
structure Main where
  sys : Sys
  loopcount : UInt64
  errorcount : UInt64
  output : List Line

/-- `op_count`. -/
def opCount : Nat := 4

/-- The start of a round of the loop. -/
def queueUptime (places : Places) (main : Main) : Exec Main :=
  if main.loopcount % 100 = 0 then do
    let heap ← printNumber main.sys.heap places.loopStr main.loopcount
    let sys ← call main.sys (.memory heap)
    let sys ← call sys (.write 2 places.uptime places.loopStr)
    return { main with sys }
  else
    return main

/-- What `main` does about an op that is finished. -/
def reportOp (places : Places) (main : Main) (op : ExoOp) : Exec Main :=
  if op.state = .success then
    if op.type = .read ∨ op.type = .subscribe then do
      let aliasText ← cString main.sys.heap op.aliasPtr
      let valueText ← cString main.sys.heap op.valuePtr
      return { main with output := .got aliasText valueText :: main.output }
    else if op.type = .write then do
      let aliasText ← cString main.sys.heap op.aliasPtr
      let valueText ← cString main.sys.heap op.valuePtr
      return { main with output := .set aliasText valueText :: main.output }
    else
      return { main with output := .warning :: main.output }
  else do
    let aliasText ← cString main.sys.heap op.aliasPtr
    let heap ← printNumber main.sys.heap places.errorStr main.errorcount
    let sys ← call main.sys (.memory heap)
    let sys ← call sys (.write 3 places.errorcount places.errorStr)
    return { main with sys, output := .error aliasText main.errorcount :: main.output }

/-- One round of the loop over the ops. -/
def checkOp (places : Places) (main : Main) (i : Nat) : Exec Main := do
  let op ← main.sys.opAt i
  if exoIsOpFinished op then
    let main ← reportOp places main op
    let sys ← call main.sys (.opDone i)
    return { main with sys }
  else
    return main

/-- The loop over the ops, from `i` on. -/
def checkOps (places : Places) (main : Main) : (left i : Nat) → Exec Main
  | 0, _ => return main
  | left + 1, i => do checkOps places (← checkOp places main i) left (i + 1)

/-- `main` up to its first call of `exo_operate`. -/
def mainStart (places : Places) (env : InitEnv) (heap : Mem) : Exec Main := do
  let sys ← run (powerOn opCount heap)
    [.init env places.vendor places.model places.serial, .opInit 0, .opInit 1, .opInit 2,
      .opInit 3, .subscribe 1 places.command places.readStr 32]
  queueUptime places ⟨sys, 0, 0, []⟩

/-- One call of `exo_operate`, and `main` up to the next one. -/
def mainStep (places : Places) (env : OperateEnv) (main : Main) : Exec Main := do
  let (state, sys) ← exoOperate env main.sys
  let main := { main with sys }
  if state ≠ .exoIdle then
    return main
  else
    let main ← checkOps places main (opCount - 1) 1
    queueUptime places { main with loopcount := main.loopcount + 1 }

/-- Some calls of `exo_operate`. -/
def mainLoop (places : Places) (main : Main) : List OperateEnv → Exec Main
  | [] => return main
  | env :: rest => do mainLoop places (← mainStep places env main) rest

/-- The program, up to its last call of `exo_operate` so far. -/
def mainRun (places : Places) (env : InitEnv) (heap : Mem) (envs : List OperateEnv) :
    Exec Main := do
  mainLoop places (← mainStart places env heap) envs

/-- These calls of `exo_operate`, and the state before each. -/
def mainOperations (places : Places) (main : Main) : List OperateEnv → List Operation
  | [] => []
  | env :: rest => ⟨main.sys, env⟩ ::
    match mainStep places env main with
    | .ok next => mainOperations places next rest
    | .error _ => []

/-- The calls of `exo_operate` in the program. -/
def mainSeen (places : Places) (env : InitEnv) (heap : Mem) (envs : List OperateEnv) :
    List Operation :=
  match mainStart places env heap with
  | .ok main => mainOperations places main envs
  | .error _ => []

/-! ## Memory -/

theorem digitsFrom_spec (fuel number : Nat) (behind : List UInt8) :
    ∀ byte ∈ digitsFrom fuel number behind, byte ∈ behind ∨ byte ≠ 0 := by
  induction fuel generalizing number behind with
  | zero => exact fun byte member => Or.inl member
  | succ fuel ih =>
      have digit : UInt8.ofNat (0x30 + number % 10) ≠ 0 := by
        intro zero
        have value := congrArg UInt8.toNat zero
        rw [UInt8.toNat_ofNat', UInt8.toNat_zero] at value
        omega
      have first : ∀ byte ∈ UInt8.ofNat (0x30 + number % 10) :: behind,
          byte ∈ behind ∨ byte ≠ 0 := by
        intro byte member
        rcases List.mem_cons.mp member with rfl | old
        · exact Or.inr digit
        · exact Or.inl old
      unfold digitsFrom
      dsimp only
      split_ifs
      · exact first
      · intro byte member
        exact (ih _ _ byte member).elim (first byte) Or.inr

/-- Printed numbers contain no zero byte. -/
theorem decimal_nonzero (number : UInt64) : ∀ byte ∈ decimal number, byte ≠ 0 := by
  intro byte member
  exact (digitsFrom_spec 20 number.toNat [] byte member).resolve_left List.not_mem_nil

/-- What is printed to an array is there as a string, and nothing else has changed. -/
theorem printNumber_spec {heap : Mem} {address : Nat} (place : address ≠ 0)
    (mapped : address + 16 ≤ heap.length) (number : UInt64) :
    ∃ after, printNumber heap address number = .ok after ∧ after.length = heap.length ∧
      cString after address = .ok ((decimal number).take 14) ∧
      ∀ other : Nat, other < address ∨ address + 16 ≤ other → after[other]? = heap[other]? := by
  have size : ((decimal number).take 14 ++ [0]).length ≤ 15 := by
    rw [List.length_append, List.length_take, List.length_singleton]
    omega
  obtain ⟨after, printed⟩ : Exec.Returns (printNumber heap address number) :=
    ⟨_, Mem.store_of_le (by omega)⟩
  refine ⟨after, printed, Mem.store_length printed, ?_, fun other outside => ?_⟩
  · have loaded := Mem.slice_of_store printed
    rw [List.length_append, List.length_singleton] at loaded
    have text := cString_of_slice place loaded
    rwa [List.takeWhile_eq_self_iff.mpr fun byte member => decide_eq_true
      (decimal_nonzero number byte (List.mem_of_mem_take member))] at text
  · exact Mem.store_getElem?_of_outside printed (by omega)

end ExositeCoap.Example
