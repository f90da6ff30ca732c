import Mathlib.Data.List.Induction
import SystemProg.Lib.Serve
import SystemProg.Shell.Chunks
import SystemProg.Shell.Exit
import SystemProg.Shell.Print

set_option autoImplicit false

-- What the processes of a line do may depend on all that has run before it, and on nothing else:
-- they read nothing of what the shell itself reads.

namespace SystemProg.Shell

inductive Report where
  | ran (log : List (Nat × Action))
  | parseError (code : ParserError)
deriving DecidableEq

structure Session where
  history : List Report
  lastStatus : Int

inductive Finished where
  | exited (history : List Report) (code : Int)
  -- An assertion has failed.
  | aborted (history : List Report)
deriving DecidableEq

abbrev Env := List Report → Processes

-- The turn of the loop in `main` for what `parser_pop_next` has returned.
def handlePopped (env : Env) (shell : Session) (popped : ParserError × Option CommandLine) :
    Except Finished Session :=
  match popped with
  | (.none, some line) =>
      match handleLine line ((env shell.history).outcomes line) with
      | .error done => .error (.exited (shell.history ++ [.ran done.log]) done.lastStatus)
      | .ok done => .ok
          { history := shell.history ++ [.ran done.log], lastStatus := done.lastStatus % 256 }
  | (code, _) => .ok { shell with history := shell.history ++ [.parseError code] }

-- What is left in the parser when the input ends is dropped.
def finish : Stream.Served Byte Session Finished → Finished
  | .waiting shell _ => .exited shell.history (shell.lastStatus % 256)
  | .stopped shell => .aborted shell.history
  | .ended done => done

def start : Session := { history := [], lastStatus := 0 }

-- The chunks are what `read` returns.
def main (env : Env) (chunks : List Text) : Option Finished :=
  (Stream.serveAll popNext (handlePopped env) parserNew.buffer start chunks).map finish

theorem main_eq (env : Env) {chunks : List Text} {results : List (ParserError × Option CommandLine)}
    {left : Option Text} (fed : feedChunks chunks = some (results, left)) :
    main env chunks = some (finish (Stream.settle (handlePopped env) start results left)) := by
  rw [main, Stream.serveAll_feed start fed]
  rfl

def Finished.history : Finished → List Report
  | .exited history _ | .aborted history => history

theorem handlePopped_history (env : Env) (shell : Session)
    (popped : ParserError × Option CommandLine) :
    (∀ done, handlePopped env shell popped = .error done → shell.history <+: done.history) ∧
      ∀ shell', handlePopped env shell popped = .ok shell' → shell.history <+: shell'.history := by
  unfold handlePopped
  split
  · split <;> constructor <;> rintro _ ⟨⟩ <;> exact List.prefix_append _ _
  · constructor <;> rintro _ ⟨⟩
    exact List.prefix_append _ _

theorem settle_history (env : Env) (shell : Session)
    (results : List (ParserError × Option CommandLine)) (left : Option Text) :
    shell.history <+: (finish (Stream.settle (handlePopped env) shell results left)).history := by
  induction results generalizing shell with
  | nil => cases left <;> exact List.prefix_refl _
  | cons result results ih =>
      have grows := handlePopped_history env shell result
      rw [Stream.settle]
      cases turn : handlePopped env shell result with
      | error done => exact grows.1 done turn
      | ok shell' => exact (grows.2 shell' turn).trans (ih shell')

theorem settle_front (env : Env) (front back : List (ParserError × Option CommandLine))
    (middle : Text) (left : Option Text) :
    (finish (Stream.settle (handlePopped env) start front (some middle))).history <+:
      (finish (Stream.settle (handlePopped env) start (front ++ back) left)).history := by
  rw [Stream.settle_append start front back middle left]
  have goes : (∃ shell, Stream.settle (handlePopped env) start front (some middle) =
      .waiting shell middle) ∨
        ∃ done, Stream.settle (handlePopped env) start front (some middle) = .ended done :=
    Stream.settle_some start front middle
  rcases goes with ⟨shell, waits⟩ | ⟨done, ends⟩
  · rw [waits]
    exact settle_history env shell back left
  · simp only [ends, List.prefix_refl]

theorem main_isSome (env : Env) {chunks : List Text} (bounded : chunks.flatten.length < 2 ^ 32) :
    ∃ results left, Stream.drain popNext chunks.flatten = some (results, left) ∧
      main env chunks = some (finish (Stream.settle (handlePopped env) start results left)) := by
  obtain ⟨⟨results, left⟩, drained⟩ :=
    Option.isSome_iff_exists.mp (Stream.drain_isSome popNext_stable _ bounded)
  exact ⟨results, left, drained, main_eq env ((feedChunks_eq_drain chunks bounded).trans drained)⟩

theorem main_online (env : Env) {front more : List Text}
    (bounded : (front ++ more).flatten.length < 2 ^ 32) : ∃ before after,
      main env front = some before ∧ main env (front ++ more) = some after ∧
        main env [(front ++ more).flatten] = some after ∧ before.history <+: after.history := by
  have short : front.flatten.length < 2 ^ 32 := by
    rw [List.flatten_append, List.length_append] at bounded
    omega
  have whole : [(front ++ more).flatten].flatten = (front ++ more).flatten := by simp
  obtain ⟨results, left, drained, run⟩ := main_isSome env short
  obtain ⟨results', left', drained', run'⟩ := main_isSome env bounded
  obtain ⟨_, _, drained'', run''⟩ := main_isSome env (whole.symm ▸ bounded)
  rw [whole, drained'] at drained''
  cases drained''
  refine ⟨_, _, run, run', run'', ?_⟩
  rw [List.flatten_append] at bounded drained'
  rcases Stream.drain_append popNext_stable front.flatten more.flatten bounded with
    ⟨popped, first, all⟩ | ⟨popped, middle, first, -, -, all⟩
  · rw [drained] at first
    rw [drained'] at all
    cases first
    cases all
    exact List.prefix_refl _
  · rw [drained] at first
    rw [drained', Eq.comm, Option.map_eq_some_iff] at all
    cases first
    obtain ⟨⟨back, _⟩, -, same⟩ := all
    cases same
    exact settle_front env _ back middle _

def cutText : List Text := [[byte 'a'], [byte '\n', byte '|', byte '\n'], [byte 'b']]

theorem main_online_cut : ∃ before after, main (fun _ => succeed) (cutText.take 2) = some before ∧
    main (fun _ => succeed) cutText = some after ∧
      main (fun _ => succeed) [cutText.flatten] = some after ∧ before.history <+: after.history :=
  have bounded : (cutText.take 2 ++ cutText.drop 2).flatten.length < 2 ^ 32 := by decide
  main_online (fun _ => succeed) bounded

structure Statement where
  tree : AndOr
  outType : OutputType
  outFile : Text
  plain : outType = .stdout → outFile = []

def Statement.line (statement : Statement) : CommandLine :=
  { exprs := statement.tree.exprs
    outType := statement.outType
    outFile := statement.outFile
    isBackground := false }

def Statement.exits (statement : Statement) : Option Int :=
  match statement.tree.left? with
  | none => exitOf statement.tree.last (redirectOf statement.line)
  | some _ => none

-- Over the pipelines and builtins of this shell: each statement runs what its operators let run,
-- until one exits.
def andOrScript (env : Env) : Session → List Statement → Finished
  | shell, [] => .exited shell.history shell.lastStatus
  | shell, statement :: rest =>
      match statement.exits with
      | some code => .exited (shell.history ++ [.ran []]) code
      | none =>
          let done := statement.tree.bash ((env shell.history).outcomes statement.line)
            (redirectOf statement.line)
          andOrScript env
            { history := shell.history ++ [.ran done.log], lastStatus := done.lastStatus % 256 } rest

def NeverSkips (env : Env) : Session → List Statement → Prop
  | _, [] => True
  | shell, statement :: rest =>
      match statement.exits with
      | some _ => True
      | none =>
          let outcomes := (env shell.history).outcomes statement.line
          let done := statement.tree.bash outcomes (redirectOf statement.line)
          statement.tree.NeverSkips outcomes ∧ NeverSkips env
            { history := shell.history ++ [.ran done.log], lastStatus := done.lastStatus % 256 } rest

section Script

variable {env : Env} {shell : Session} {statement : Statement} {script : List Statement}

theorem pipelineExprs_alternates (first : Command) (rest : List Command) :
    Alternates (AndOr.pipelineExprs first rest) := by
  induction rest using List.reverseRecOn with
  | nil => exact .command first
  | append_singleton rest cmd ih =>
      rw [AndOr.pipelineExprs_pipe]
      exact .chain ih rfl cmd

theorem Alternates.joined {front back : List Expr} {operator : Expr} (left : Alternates front)
    (joins : operator.isCommand = false) (right : Alternates back) :
    Alternates (front ++ operator :: back) := by
  induction right with
  | command cmd => exact .chain left joins cmd
  | @chain back operator' _ joins' cmd ih =>
      have whole := Alternates.chain ih joins' cmd
      rwa [List.append_assoc, List.cons_append] at whole

theorem AndOr.alternates (tree : AndOr) : Alternates tree.exprs := by
  induction tree with
  | pipeline first rest => exact pipelineExprs_alternates first rest
  | and left first rest ih | or left first rest ih =>
      exact ih.joined rfl (pipelineExprs_alternates first rest)

theorem Statement.formed (statement : Statement) : WellFormed statement.line :=
  ⟨statement.tree.alternates, statement.plain⟩

theorem drain_script (bounded : (script.flatMap fun s => printLine s.line).length < 2 ^ 32) :
    Stream.drain popNext (script.flatMap fun s => printLine s.line) =
      some (script.map fun s => (.none, some s.line), some []) := by
  induction script with
  | nil => exact Stream.drain_waiting popNext_empty
  | cons statement script ih =>
      rw [List.flatMap_cons] at bounded ⊢
      have printed := bounded
      rw [List.length_append] at printed
      have item : popNext (printLine statement.line ++ script.flatMap fun s => printLine s.line) =
          .item (.none, some statement.line) (script.flatMap fun s => printLine s.line) := by
        rw [popNext, parserPopNext_print statement.formed (by omega)]
      have nonempty : 0 < (printLine statement.line).length := by simp [printLine]
      rw [Stream.drain_item item (by rw [List.length_append]; omega), ih (by omega)]
      rfl

theorem handleLine_exits {code : Int} (exits : statement.exits = some code) (outcomes : Outcomes) :
    handleLine statement.line outcomes = .error ⟨[], code⟩ := by
  unfold Statement.exits at exits
  split at exits
  · next alone =>
      obtain ⟨first, rest, same⟩ : ∃ first rest, statement.tree = .pipeline first rest := by
        cases tree : statement.tree with
        | pipeline first rest => exact ⟨first, rest, rfl⟩
        | and | or =>
            rw [tree] at alone
            cases alone
      obtain ⟨c, single, rfl⟩ : ∃ c, singleCommand exitName (first :: rest) = some c ∧
          exitCode c.args = code := by
        rw [same, AndOr.last, exitOf] at exits
        split at exits
        · exact Option.map_eq_some_iff.mp exits
        · cases exits
      have alone : statement.line.exprs = (AndOr.pipeline first rest).exprs := by
        rw [← same]
        rfl
      rw [handleLine_single alone, single]
  · cases exits

theorem handleLine_noExit (noExit : AndOr.NoExit statement.tree.exprs) (outcomes : Outcomes) :
    handleLine statement.line outcomes =
      .ok { log := (statement.tree.all outcomes false (redirectOf statement.line)).log
            lastStatus := statement.tree.lastStatus outcomes % 256 } := by
  have other : mainExit statement.line = none := by
    unfold mainExit
    split
    · next c alone =>
        refine if_neg (noExit c ?_)
        rw [show statement.tree.exprs = _ from alone]
        simp
    · rfl
  rw [handleLine, other]
  exact AndOr.executeCommandLine_all rfl rfl noExit outcomes

theorem andOrScript_history (env : Env) (shell : Session) (script : List Statement) :
    shell.history <+: (andOrScript env shell script).history := by
  induction script generalizing shell with
  | nil => exact List.prefix_refl _
  | cons statement script ih =>
      rw [andOrScript]
      split
      · exact List.prefix_append _ _
      · refine List.IsPrefix.trans ?_ (ih _)
        exact List.prefix_append _ _

theorem handlePopped_exits {code : Int} (exits : statement.exits = some code) :
    handlePopped env shell (.none, some statement.line) =
      .error (.exited (shell.history ++ [.ran []]) code) := by
  simp [handlePopped, handleLine_exits exits]

theorem handlePopped_runs (noExit : AndOr.NoExit statement.tree.exprs) :
    let outcomes := (env shell.history).outcomes statement.line
    handlePopped env shell (.none, some statement.line) = .ok
      { history := shell.history ++
          [.ran (statement.tree.all outcomes false (redirectOf statement.line)).log]
        lastStatus := statement.tree.lastStatus outcomes % 256 } := by
  simp [handlePopped, handleLine_noExit noExit]

theorem histories_meet {shell' : Session} {results : List (ParserError × Option CommandLine)}
    {left : Option Text} (same : finish (Stream.settle (handlePopped env) shell results left) =
      andOrScript env shell' script) : ∃ last, shell.history <+: last ∧ shell'.history <+: last :=
  ⟨_, settle_history env shell results left, same ▸ andOrScript_history env shell' script⟩

theorem report_unique {a b : Report} {history last : List Report} (first : history ++ [a] <+: last)
    (second : history ++ [b] <+: last) : a = b := by
  have before := List.prefix_of_prefix_length_le first second (by simp)
  simpa using before.eq_of_length (by simp)

theorem settle_script (alone : ∀ s ∈ script, s.exits = none → AndOr.NoExit s.tree.exprs)
    (byte : shell.lastStatus % 256 = shell.lastStatus) :
    finish (Stream.settle (handlePopped env) shell (script.map fun s => (.none, some s.line))
        (some [])) = andOrScript env shell script ↔ NeverSkips env shell script := by
  induction script generalizing shell with
  | nil => simp [Stream.settle, finish, andOrScript, NeverSkips, byte]
  | cons statement script ih =>
      rw [List.map_cons, Stream.settle, andOrScript, NeverSkips]
      cases exits : statement.exits with
      | some code => simp [handlePopped_exits exits, finish]
      | none =>
          have noExit := alone statement (by simp) exits
          rw [handlePopped_runs noExit]
          dsimp only
          by_cases runs : statement.tree.NeverSkips ((env shell.history).outcomes statement.line)
          · rw [AndOr.bash_all runs, AndOr.all_status, and_iff_right runs]
            exact ih (fun s mem => alone s (by simp [mem])) (by simp)
          · refine iff_of_false (fun same => ?_) (fun all => runs all.1)
            -- The reports of the statement itself are different, and nothing takes them back.
            obtain ⟨last, first, second⟩ := histories_meet same
            have reports := report_unique first second
            have fewer := AndOr.bash_skips runs (redirectOf statement.line)
            rw [← Report.ran.inj reports, AndOr.all_log] at fewer
            exact Nat.lt_irrefl _ fewer

end Script

def exitScript : List Statement :=
  [⟨andTree, .stdout, [], fun _ => rfl⟩,
    ⟨.pipeline ⟨exitName, [[byte '3']]⟩ [], .stdout, [], fun _ => rfl⟩]

def exitScriptText : Text := exitScript.flatMap fun s => printLine s.line

end SystemProg.Shell
