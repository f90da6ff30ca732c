import SystemProg.Shell.Execute
import SystemProg.Shell.Lines

set_option autoImplicit false

-- Bash joins pipelines by `&&` and `||` from the left, both with the same precedence. `AndOr` is
-- that syntax and `AndOr.bash` its evaluation, to which `execute_command_line` is compared.

namespace SystemProg.Shell

inductive AndOr where
  | pipeline (first : Command) (rest : List Command)
  | and (left : AndOr) (first : Command) (rest : List Command)
  | or (left : AndOr) (first : Command) (rest : List Command)
deriving DecidableEq, Repr

namespace AndOr

def pipelineExprs (first : Command) (rest : List Command) : List Expr :=
  .command first :: rest.flatMap fun cmd => [.pipe, .command cmd]

def exprs : AndOr → List Expr
  | .pipeline first rest => pipelineExprs first rest
  | .and left first rest => left.exprs ++ .and :: pipelineExprs first rest
  | .or left first rest => left.exprs ++ .or :: pipelineExprs first rest

def size : AndOr → Nat
  | .pipeline _ _ => 1
  | .and left _ _ => left.size + 1
  | .or left _ _ => left.size + 1

-- Bash: a pipeline after `&&` runs if the current status is zero, after `||` if it is not.
def bash (outcomes : Outcomes) (redirect : Redirect) : AndOr → Execution
  | .pipeline first rest => runSegment outcomes 0 (first :: rest) redirect false ⟨[], 0⟩
  | .and left first rest =>
      let shell := left.bash outcomes none
      if shell.lastStatus = 0 then
        runSegment outcomes left.size (first :: rest) redirect false shell
      else shell
  | .or left first rest =>
      let shell := left.bash outcomes none
      if shell.lastStatus ≠ 0 then
        runSegment outcomes left.size (first :: rest) redirect false shell
      else shell

def segmentStatus (outcomes : Outcomes) (si : Nat) (cmds : List Command) : Int :=
  match singleCommand cdName cmds with
  | some c => cdStatus c.args (outcomes.chdir si)
  | none => outcomes.pipeline si

def lastStatus (outcomes : Outcomes) : AndOr → Int
  | .pipeline first rest => segmentStatus outcomes 0 (first :: rest)
  | .and left first rest => segmentStatus outcomes left.size (first :: rest)
  | .or left first rest => segmentStatus outcomes left.size (first :: rest)

-- Each operator lets the segment behind it run, by the status of the segment before it.
def NeverSkips (outcomes : Outcomes) : AndOr → Prop
  | .pipeline _ _ => True
  | .and left _ _ => left.NeverSkips outcomes ∧ left.lastStatus outcomes = 0
  | .or left _ _ => left.NeverSkips outcomes ∧ left.lastStatus outcomes ≠ 0

def pipe (cmd : Command) : AndOr → AndOr
  | .pipeline first rest => .pipeline first (rest ++ [cmd])
  | .and left first rest => .and left first (rest ++ [cmd])
  | .or left first rest => .or left first (rest ++ [cmd])

theorem pipelineExprs_pipe (first cmd : Command) (rest : List Command) :
    pipelineExprs first (rest ++ [cmd]) = pipelineExprs first rest ++ [.pipe, .command cmd] := by
  simp [pipelineExprs]

theorem exprs_pipe (tree : AndOr) (cmd : Command) :
    (tree.pipe cmd).exprs = tree.exprs ++ [.pipe, .command cmd] := by
  cases tree <;> simp [pipe, exprs, pipelineExprs_pipe]

end AndOr

theorem Exprs.andOr {tokens : List Token} {exprs : List Expr} (read : Exprs tokens exprs) :
    ∃ tree : AndOr, exprs = tree.exprs := by
  induction read with
  | @command tokens cmd words => exact ⟨.pipeline cmd [], rfl⟩
  | @chain front tokens exprs t operator cmd left joined words ih =>
      obtain ⟨tree, rfl⟩ := ih
      cases type : t.type <;> rw [type] at joined <;> cases joined
      · exact ⟨tree.pipe cmd, (tree.exprs_pipe cmd).symm⟩
      · exact ⟨.and tree cmd [], rfl⟩
      · exact ⟨.or tree cmd [], rfl⟩

theorem skipLine_line (code : ParserError) (pos : Nat) (rest : Text) (line : CommandLine)
    (consumed : Nat) : skipLine code pos rest ≠ .line line consumed := by
  induction length : rest.length using Nat.strongRecOn generalizing pos rest with
  | _ size ih =>
  rw [skipLine_eq]
  cases scanned : parseToken rest with
  | failed | incomplete => simp
  | token t used =>
      obtain ⟨positive, inside⟩ := parseToken_within scanned
      dsimp only
      split
      · simp
      · exact ih (rest.drop used).length (by rw [List.length_drop]; omega) _ _ rfl

def Outcome.Ends (outcome : Outcome) (exprs : List Expr) : Prop :=
  ∀ line consumed, outcome = .line line consumed →
    line.exprs = exprs ∧ ∃ last, exprs.getLast? = some last ∧ last.isCommand = true

theorem finishLine_ends {line : CommandLine} {exprs : List Expr} (same : line.exprs = exprs)
    (pos : Nat) (rest : Text) (token : Token) : (finishLine line pos rest token).Ends exprs := by
  subst same
  intro line' consumed finished
  unfold finishLine at finished
  split at finished
  · cases found : line.exprs.getLast? with
    | none =>
        rw [found] at finished
        cases finished
    | some last =>
        rw [found] at finished
        dsimp only at finished
        split at finished
        · next isCommand =>
            cases finished
            exact ⟨rfl, last, rfl, isCommand⟩
        · cases finished
  · exact absurd finished (skipLine_line _ _ _ _ _)

theorem closeBackground_ends {line : CommandLine} {exprs : List Expr} (same : line.exprs = exprs)
    (pos : Nat) (rest : Text) (token : Token) : (closeBackground line pos rest token).Ends exprs := by
  intro line' consumed closed
  unfold closeBackground at closed
  split at closed
  · cases scanned : parseToken rest with
    | failed | incomplete =>
        rw [scanned] at closed
        cases closed
    | token next used =>
        rw [scanned] at closed
        refine finishLine_ends ?_ _ _ next line' consumed closed
        exact same
  · exact finishLine_ends same pos rest token line' consumed closed

theorem closeLine_ends {line : CommandLine} {exprs : List Expr} (same : line.exprs = exprs)
    (pos : Nat) (rest : Text) (token : Token) : (closeLine line pos rest token).Ends exprs := by
  intro line' consumed closed
  unfold closeLine at closed
  split at closed
  · cases scanned : parseToken rest with
    | failed | incomplete =>
        rw [scanned] at closed
        cases closed
    | token file used =>
        rw [scanned] at closed
        dsimp only at closed
        split at closed
        · exact absurd closed (skipLine_line _ _ _ _ _)
        · cases scanned' : parseToken (rest.drop used) with
          | failed | incomplete =>
              rw [scanned'] at closed
              cases closed
          | token next used' =>
              rw [scanned'] at closed
              refine closeBackground_ends ?_ _ _ next line' consumed closed
              exact same
  · exact closeBackground_ends same pos rest token line' consumed closed

theorem parseLine_exprs {tokens : List Token} {exprs : List Expr} {pos consumed : Nat} {rest : Text}
    {line : CommandLine} (read : Reading tokens exprs)
    (outcome : parseLine exprs pos rest = .line line consumed) :
    ∃ tokens', Exprs tokens' line.exprs := by
  induction length : rest.length using Nat.strongRecOn generalizing tokens exprs pos rest with
  | _ size ih =>
  rw [parseLine_eq] at outcome
  cases scanned : parseToken rest with
  | failed | incomplete =>
      rw [scanned] at outcome
      cases outcome
  | token t used =>
      obtain ⟨positive, inside⟩ := parseToken_within scanned
      have shorter : (rest.drop used).length < size := by
        rw [List.length_drop]
        omega
      rw [scanned] at outcome
      dsimp only at outcome
      cases turn : readToken exprs t with
      | failed =>
          rw [turn] at outcome
          cases outcome
      | error code =>
          rw [turn] at outcome
          exact absurd outcome (skipLine_line _ _ _ _ _)
      | close =>
          rw [turn] at outcome
          obtain ⟨same, last, found, isCommand⟩ := closeLine_ends rfl _ _ t line consumed outcome
          exact ⟨tokens, same ▸ read.exprs found isCommand⟩
      | more exprs' =>
          rw [turn] at outcome
          by_cases ends : t.type = .newLine
          · -- Only the new lines before the first command do not end the line.
            rw [readToken, ends] at turn
            dsimp only at turn
            split at turn <;> cases turn
            exact ih _ shorter read outcome rfl
          · exact ih _ shorter (read.step ends turn) outcome rfl

theorem parserPopNext_andOr {p left : Parser} {line : CommandLine} {code : ParserError}
    (popped : parserPopNext p = some (code, some line, left)) :
    ∃ tree : AndOr, line.exprs = tree.exprs := by
  unfold parserPopNext at popped
  cases outcome : parseLine [] 0 p.buffer with
  | failed | noLine =>
      rw [outcome] at popped
      cases popped
  | error code consumed =>
      rw [outcome, Option.map_eq_some_iff] at popped
      obtain ⟨p', -, same⟩ := popped
      cases same
  | line line' consumed =>
      rw [outcome, Option.map_eq_some_iff] at popped
      obtain ⟨p', -, same⟩ := popped
      cases same
      obtain ⟨tokens, read⟩ := parseLine_exprs .start outcome
      exact read.andOr

namespace AndOr

def segments : AndOr → List Segment
  | .pipeline first rest => [⟨first :: rest, .first⟩]
  | .and left first rest => left.segments ++ [⟨first :: rest, .and⟩]
  | .or left first rest => left.segments ++ [⟨first :: rest, .or⟩]

theorem segments_length (tree : AndOr) : tree.segments.length = tree.size := by
  induction tree with
  | pipeline first rest => rfl
  | and left first rest ih | or left first rest ih => simp [segments, size, ih]

theorem splitExpr_pipe (done : List Segment) (cmds : List Command) (sepType : SepType)
    (rest : List Command) :
    (rest.flatMap fun cmd => [Expr.pipe, Expr.command cmd]).foldl splitExpr
      (done, ⟨cmds, sepType⟩) = (done, ⟨cmds ++ rest, sepType⟩) := by
  induction rest generalizing cmds with
  | nil => simp
  | cons cmd rest ih => simp [splitExpr, ih]

theorem splitExpr_pipeline (done : List Segment) (sepType : SepType) (first : Command)
    (rest : List Command) : (pipelineExprs first rest).foldl splitExpr (done, ⟨[], sepType⟩) =
      (done, ⟨first :: rest, sepType⟩) := by
  rw [pipelineExprs, List.foldl_cons, splitExpr, splitExpr_pipe]
  rfl

theorem splitExpr_exprs (tree : AndOr) :
    ∃ done cur, tree.exprs.foldl splitExpr ([], ⟨[], .first⟩) = (done, cur) ∧
      tree.segments = done ++ [cur] := by
  induction tree with
  | pipeline first rest => exact ⟨[], _, splitExpr_pipeline [] .first first rest, rfl⟩
  | and left first rest ih | or left first rest ih =>
      obtain ⟨done, cur, split, same⟩ := ih
      refine ⟨done ++ [cur], _, ?_, by rw [segments, same]⟩
      rw [exprs, List.foldl_append, split, List.foldl_cons, splitExpr, splitExpr_pipeline]

theorem segments_exprs (tree : AndOr) : Shell.segments tree.exprs = tree.segments := by
  obtain ⟨done, cur, split, same⟩ := tree.splitExpr_exprs
  rw [Shell.segments, split, same]

def all (outcomes : Outcomes) (background : Bool) (redirect : Redirect) : AndOr → Execution
  | .pipeline first rest => runSegment outcomes 0 (first :: rest) redirect background ⟨[], 0⟩
  | .and left first rest | .or left first rest =>
      runSegment outcomes left.size (first :: rest) redirect background
        (left.all outcomes background none)

theorem runSegment_log (outcomes : Outcomes) (si : Nat) (cmds : List Command) (redirect : Redirect)
    (background : Bool) (shell : Execution) :
    (runSegment outcomes si cmds redirect background shell).log.length = shell.log.length + 1 := by
  unfold runSegment
  split <;> simp

theorem runSegment_status (outcomes : Outcomes) (si : Nat) (cmds : List Command)
    (redirect : Redirect) (background : Bool) (shell : Execution) :
    (runSegment outcomes si cmds redirect background shell).lastStatus =
      segmentStatus outcomes si cmds := by
  unfold runSegment segmentStatus
  cases singleCommand cdName cmds <;> rfl

theorem all_log (outcomes : Outcomes) (background : Bool) (redirect : Redirect) (tree : AndOr) :
    (tree.all outcomes background redirect).log.length = tree.size := by
  induction tree generalizing redirect with
  | pipeline first rest => simp [all, runSegment_log, size]
  | and left first rest ih | or left first rest ih => simp [all, runSegment_log, size, ih]

theorem all_status (outcomes : Outcomes) (background : Bool) (redirect : Redirect) (tree : AndOr) :
    (tree.all outcomes background redirect).lastStatus = tree.lastStatus outcomes := by
  cases tree <;> exact runSegment_status _ _ _ _ _ _

theorem executeSegments_append (line : CommandLine) (outcomes : Outcomes) (count si : Nat)
    (front back : List Segment) (shell : Execution) :
    executeSegments line outcomes count si (front ++ back) shell =
      match executeSegments line outcomes count si front shell with
      | .error shell => .error shell
      | .ok shell => executeSegments line outcomes count (si + front.length) back shell := by
  induction front generalizing si shell with
  | nil => rfl
  | cons seg front ih =>
      rw [List.cons_append, executeSegments, executeSegments]
      cases executeSegment line outcomes count si seg shell with
      | error shell => rfl
      | ok shell =>
          dsimp only
          rw [ih, List.length_cons, Nat.add_assoc, Nat.add_comm 1]

def NoExit (exprs : List Expr) : Prop := ∀ cmd, .command cmd ∈ exprs → cmd.exe ≠ exitName

theorem executeSegment_noExit {line : CommandLine} (foreground : line.isBackground = false)
    {first : Command} {rest : List Command} (noExit : first.exe ≠ exitName) (outcomes : Outcomes)
    (count si : Nat) (sepType : SepType) (shell : Execution) :
    executeSegment line outcomes count si ⟨first :: rest, sepType⟩ shell =
      .ok (runSegment outcomes si (first :: rest)
        (if si + 1 = count then redirectOf line else none) false shell) := by
  have other : singleCommand exitName (first :: rest) = none := by
    cases rest with
    | nil => exact if_neg noExit
    | cons cmd rest => rfl
  simp [executeSegment, other, foreground]

theorem executeSegments_all {line : CommandLine} (foreground : line.isBackground = false)
    (outcomes : Outcomes) (count : Nat) (tree : AndOr) (noExit : NoExit tree.exprs)
    (inside : tree.size ≤ count) :
    executeSegments line outcomes count 0 tree.segments ⟨[], 0⟩ =
      .ok (tree.all outcomes false (if tree.size = count then redirectOf line else none)) := by
  induction tree with
  | pipeline first rest =>
      have first' : first.exe ≠ exitName := noExit first (by simp [exprs, pipelineExprs])
      rw [segments, executeSegments, executeSegment_noExit foreground first']
      rfl
  | and left first rest ih | or left first rest ih =>
      have first' : first.exe ≠ exitName := noExit first (by simp [exprs, pipelineExprs])
      have before := ih (fun cmd mem => noExit cmd (by simp [exprs, mem]))
        (Nat.le_of_succ_le inside)
      have notLast : left.size ≠ count := Nat.ne_of_lt inside
      rw [if_neg notLast] at before
      rw [segments, executeSegments_append, before]
      dsimp only
      rw [segments_length, executeSegments, executeSegment_noExit foreground first', Nat.zero_add]
      rfl

theorem earlyExit_noExit (line : CommandLine) (tree : AndOr) (noExit : NoExit tree.exprs) :
    earlyExit line tree.segments = none := by
  cases tree with
  | pipeline first rest =>
      have first' : first.exe ≠ exitName := noExit first (by simp [exprs, pipelineExprs])
      have other : singleCommand exitName (first :: rest) = none := by
        cases rest with
        | nil => exact if_neg first'
        | cons cmd rest => rfl
      simp [segments, earlyExit, other]
  | and left first rest | or left first rest =>
      cases same : left.segments with
      | nil =>
          have none := left.segments_length
          rw [same] at none
          cases left <;> cases none
      | cons seg segs => cases segs <;> simp [segments, same, earlyExit]

theorem executeCommandLine_all {line : CommandLine} {tree : AndOr} (same : line.exprs = tree.exprs)
    (foreground : line.isBackground = false) (noExit : NoExit line.exprs) (outcomes : Outcomes) :
    executeCommandLine line outcomes =
      .ok { log := (tree.all outcomes false (redirectOf line)).log
            lastStatus := tree.lastStatus outcomes % 256 } := by
  rw [same] at noExit
  rw [executeCommandLine, same, segments_exprs, earlyExit_noExit line tree noExit, segments_length]
  dsimp only
  rw [executeSegments_all foreground outcomes tree.size tree noExit (Nat.le_refl _), if_pos rfl]
  dsimp only
  rw [all_status]

theorem bash_all {outcomes : Outcomes} {tree : AndOr} (runs : tree.NeverSkips outcomes)
    (redirect : Redirect) : tree.bash outcomes redirect = tree.all outcomes false redirect := by
  induction tree generalizing redirect with
  | pipeline first rest => rfl
  | and left first rest ih =>
      rw [bash, ih runs.1, all_status, if_pos runs.2, all]
  | or left first rest ih =>
      rw [bash, ih runs.1, all_status, if_pos runs.2, all]

theorem bash_skips {outcomes : Outcomes} {tree : AndOr} (skips : ¬tree.NeverSkips outcomes)
    (redirect : Redirect) : (tree.bash outcomes redirect).log.length < tree.size := by
  induction tree generalizing redirect with
  | pipeline first rest => exact absurd True.intro skips
  | and left first rest ih | or left first rest ih =>
      simp only [bash, size]
      by_cases before : left.NeverSkips outcomes
      · have stops := fun status => skips ⟨before, status⟩
        rw [bash_all before, all_status, if_neg stops, all_log]
        omega
      · have fewer := ih before none
        split
        · rw [runSegment_log]
          omega
        · omega

end AndOr

theorem executeCommandLine_bash_iff {p left : Parser} {code : ParserError} {line : CommandLine}
    (popped : parserPopNext p = some (code, some line, left))
    (foreground : line.isBackground = false) (noExit : AndOr.NoExit line.exprs)
    (outcomes : Outcomes) :
    (∃ tree : AndOr, line.exprs = tree.exprs) ∧
      ∀ tree : AndOr, line.exprs = tree.exprs →
        (executeCommandLine line outcomes =
            .ok { log := (tree.bash outcomes (redirectOf line)).log
                  lastStatus := (tree.bash outcomes (redirectOf line)).lastStatus % 256 } ↔
          tree.NeverSkips outcomes) := by
  refine ⟨parserPopNext_andOr popped, fun tree same => ?_⟩
  rw [AndOr.executeCommandLine_all same foreground noExit]
  constructor
  · intro agrees
    by_contra skips
    have fewer := AndOr.bash_skips skips (redirectOf line)
    simp only [Except.ok.injEq, Execution.mk.injEq] at agrees
    rw [← agrees.1, AndOr.all_log] at fewer
    omega
  · intro runs
    rw [AndOr.bash_all runs, AndOr.all_status]

def andText : Text := [byte 'a', byte '&', byte '&', byte 'b', byte '\n']

def andTree : AndOr := .and (.pipeline ⟨[byte 'a'], []⟩ []) ⟨[byte 'b'], []⟩ []

theorem andText_popped :
    parserPopNext ⟨andText⟩ = some (.none, some (lineOf andTree.exprs), ⟨[]⟩) := by
  decide +kernel

theorem andTree_noExit : AndOr.NoExit andTree.exprs := by
  intro cmd mem
  have named : cmd.exe = [byte 'a'] ∨ cmd.exe = [byte 'b'] := by
    simp [andTree, AndOr.exprs, AndOr.pipelineExprs] at mem
    rcases mem with rfl | rfl <;> simp
  rcases named with same | same <;> rw [same] <;> decide

theorem executeCommandLine_bash_success :
    executeCommandLine (lineOf andTree.exprs) ⟨fun _ => 0, fun _ => true⟩ =
      .ok { log := [(0, .runPipeline [⟨[byte 'a'], []⟩] none false),
              (1, .runPipeline [⟨[byte 'b'], []⟩] none false)]
            lastStatus := 0 } :=
  ((executeCommandLine_bash_iff andText_popped rfl andTree_noExit ⟨fun _ => 0, fun _ => true⟩).2
    andTree rfl).2 ⟨True.intro, rfl⟩

theorem executeCommandLine_runs_skipped :
    parserPopNext ⟨andText⟩ = some (.none, some (lineOf andTree.exprs), ⟨[]⟩) ∧
      AndOr.NoExit andTree.exprs ∧
      executeCommandLine (lineOf andTree.exprs) ⟨fun _ => 1, fun _ => true⟩ ≠
        .ok { log := (andTree.bash ⟨fun _ => 1, fun _ => true⟩ none).log
              lastStatus := (andTree.bash ⟨fun _ => 1, fun _ => true⟩ none).lastStatus % 256 } := by
  refine ⟨andText_popped, andTree_noExit, fun agrees => ?_⟩
  have runs : executeCommandLine (lineOf andTree.exprs) ⟨fun _ => 1, fun _ => true⟩ =
      .ok { log := [(0, .runPipeline [⟨[byte 'a'], []⟩] none false),
              (1, .runPipeline [⟨[byte 'b'], []⟩] none false)]
            lastStatus := 1 } := rfl
  rw [runs] at agrees
  cases agrees

end SystemProg.Shell
