import Mathlib.Algebra.Group.Int.Defs
import SystemProg.Shell.Parser

set_option autoImplicit false

-- `execute_command_line` and `main` of `2/solution.cpp`. What the processes of a pipeline do is not
-- modelled: `Outcomes` assigns an exit status to the pipeline of each segment, and success or
-- failure to its `chdir`.

namespace SystemProg.Shell

def cdName : Text := [byte 'c', byte 'd']
def exitName : Text := [byte 'e', byte 'x', byte 'i', byte 't']

def digit (c : Byte) : Option Nat :=
  if byte '0' ≤ c ∧ c ≤ byte '9' then some (c.toNat - (byte '0').toNat) else none

def digits (value : Nat) : Text → Nat
  | [] => value
  | c :: rest =>
      match digit c with
      | some d => digits (value * 10 + d) rest
      | none => value

-- The `long` that `strtol` gives, which stops at the bounds of the type.
def strtol (text : Text) : Int :=
  match text.dropWhile isSpace with
  | [] => 0
  | c :: rest =>
      if c = byte '-' then max (-2 ^ 63) (-(digits 0 rest : Int))
      else if c = byte '+' then min (2 ^ 63 - 1) (digits 0 rest : Int)
      else min (2 ^ 63 - 1) (digits 0 (c :: rest) : Int)

-- The low byte of `atoi`, which is the low byte of the `long`.
def exitCode (args : List Text) : Int :=
  match args with
  | [] => 0
  | arg :: _ => strtol arg % 256

inductive SepType where
  | first
  | and
  | or
deriving DecidableEq, Repr

structure Segment where
  cmds : List Command
  sepType : SepType
deriving DecidableEq, Repr

def splitExpr (state : List Segment × Segment) (e : Expr) : List Segment × Segment :=
  match e with
  | .command cmd => (state.1, { state.2 with cmds := state.2.cmds ++ [cmd] })
  | .pipe => state
  | .and => (state.1 ++ [state.2], ⟨[], .and⟩)
  | .or => (state.1 ++ [state.2], ⟨[], .or⟩)

def segments (exprs : List Expr) : List Segment :=
  let state := exprs.foldl splitExpr ([], ⟨[], .first⟩)
  state.1 ++ [state.2]

structure Outcomes where
  pipeline : Nat → Int
  chdir : Nat → Bool

abbrev Redirect := Option (OutputType × Text)

inductive Action where
  | cd (path : Option Text)
  | runPipeline (cmds : List Command) (redirect : Redirect) (background : Bool)
deriving DecidableEq, Repr

-- The segments that have run, each by its position, and `last_status`.
structure Execution where
  log : List (Nat × Action)
  lastStatus : Int
deriving DecidableEq, Repr

def singleCommand (name : Text) (cmds : List Command) : Option Command :=
  match cmds with
  | [c] => if c.exe = name then some c else none
  | _ => none

def cdStatus (args : List Text) (changed : Bool) : Int :=
  match args with
  | [] => 0
  | _ :: _ => if changed then 0 else 1

-- A segment runs: a `cd` on its own in the shell, anything else in `run_pipeline`.
def runSegment (outcomes : Outcomes) (si : Nat) (cmds : List Command) (redirect : Redirect)
    (background : Bool) (shell : Execution) : Execution :=
  match singleCommand cdName cmds with
  | some c =>
      { log := shell.log ++ [(si, .cd c.args.head?)]
        lastStatus := cdStatus c.args (outcomes.chdir si) }
  | none =>
      { log := shell.log ++ [(si, .runPipeline cmds redirect background)]
        lastStatus := outcomes.pipeline si }

def redirectOf (line : CommandLine) : Redirect :=
  if line.outType = .stdout then none else some (line.outType, line.outFile)

-- The body of the loop up to `after_exec_segment`; an error is what has run when the shell exits,
-- with its status.
def executeSegment (line : CommandLine) (outcomes : Outcomes) (count si : Nat) (seg : Segment)
    (shell : Execution) : Except Execution Execution :=
  if seg.cmds = [] then .ok shell
  else
    let redirect := if si + 1 = count then redirectOf line else none
    let shell := runSegment outcomes si seg.cmds redirect line.isBackground shell
    if (singleCommand exitName seg.cmds).isSome ∧ si + 1 = count ∧ redirect = none ∧
        line.isBackground = false then
      .error { shell with lastStatus := shell.lastStatus % 256 }
    else .ok shell

def executeSegments (line : CommandLine) (outcomes : Outcomes) (count : Nat) :
    Nat → List Segment → Execution → Except Execution Execution
  | _, [], shell => .ok shell
  | si, seg :: rest, shell =>
      match executeSegment line outcomes count si seg shell with
      | .error shell => .error shell
      | .ok shell =>
          -- The tests of `next_sep` guard a `continue` that is the last statement of the body:
          -- each way out of them is the next turn.
          executeSegments line outcomes count (si + 1) rest shell

-- An `exit` on its own, to the terminal and in the foreground.
def earlyExit (line : CommandLine) : List Segment → Option Int
  | [seg] =>
      match singleCommand exitName seg.cmds with
      | some c =>
          if line.outType = .stdout ∧ line.isBackground = false then some (exitCode c.args) else none
      | none => none
  | _ => none

def executeCommandLine (line : CommandLine) (outcomes : Outcomes) : Except Execution Execution :=
  let segs := segments line.exprs
  match earlyExit line segs with
  | some code => .ok { log := [], lastStatus := code }
  | none =>
      match executeSegments line outcomes segs.length 0 segs { log := [], lastStatus := 0 } with
      | .error shell => .error shell
      | .ok shell => .ok { shell with lastStatus := shell.lastStatus % 256 }

-- The test of `main` on a line that has been read.
def mainExit (line : CommandLine) : Option Int :=
  match line.exprs with
  | [.command c] => if c.exe = exitName then some (exitCode c.args) else none
  | _ => none

def handleLine (line : CommandLine) (outcomes : Outcomes) : Except Execution Execution :=
  match mainExit line with
  | some code => .error { log := [], lastStatus := code }
  | none => executeCommandLine line outcomes

-- The exit status of the last process of each segment if it is a program, the result of `chdir` in
-- each segment, and whether the file of the redirection can be opened. Programs end, and none reads
-- the input of the shell, which the first process of a pipeline inherits.
structure Processes where
  status : Nat → Int
  chdir : Nat → Bool
  opens : Bool

-- The status that `run_pipeline` returns when its system calls succeed: that of the last process,
-- where the shell's own code runs `cd` and `exit`.
def runPipeline (processes : Processes) (si : Nat) (cmds : List Command) (redirect : Redirect)
    (background : Bool) : Int :=
  match cmds.getLast? with
  | none => 0
  | some c =>
      if background then 0
      else if redirect ≠ none ∧ processes.opens = false then 127
      else if c.exe = cdName then cdStatus c.args (processes.chdir si)
      else if c.exe = exitName then exitCode c.args
      else processes.status si

def Processes.outcomes (processes : Processes) (line : CommandLine) : Outcomes :=
  let segs := segments line.exprs
  { pipeline := fun si =>
      let redirect := if si + 1 = segs.length then redirectOf line else none
      let cmds := (segs[si]?.map Segment.cmds).getD []
      runPipeline processes si cmds redirect line.isBackground
    chdir := processes.chdir }

end SystemProg.Shell
