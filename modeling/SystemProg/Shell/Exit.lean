import SystemProg.Shell.AndOr

set_option autoImplicit false

-- `exit` ends the shell where it is a segment of its own that is reached and writes to the
-- terminal, and `cd` changes its directory where it is one that is reached. The tests for that
-- stand in `main` and at the end of the loop over the segments.

namespace SystemProg.Shell

def exitOf (cmds : List Command) (redirect : Redirect) : Option Int :=
  if redirect = none then (singleCommand exitName cmds).map fun c => exitCode c.args else none

def Changes (outcomes : Outcomes) (si : Nat) (cmds : List Command) : Prop :=
  (∃ c path, singleCommand cdName cmds = some c ∧ c.args.head? = some path) ∧
    outcomes.chdir si = true

def Changed (outcomes : Outcomes) (log : List (Nat × Action)) (si : Nat) : Prop :=
  ∃ path, (si, .cd (some path)) ∈ log ∧ outcomes.chdir si = true

namespace AndOr

-- The last segment is reached in Bash's order.
def Runs (outcomes : Outcomes) : AndOr → Prop
  | .pipeline _ _ => True
  | .and left _ _ => (left.bash outcomes none).lastStatus = 0
  | .or left _ _ => (left.bash outcomes none).lastStatus ≠ 0

instance (outcomes : Outcomes) : (tree : AndOr) → Decidable (tree.Runs outcomes)
  | .pipeline _ _ => inferInstanceAs (Decidable True)
  | .and _ _ _ => inferInstanceAs (Decidable (_ = _))
  | .or _ _ _ => inferInstanceAs (Decidable (_ ≠ _))

def last : AndOr → List Command
  | .pipeline first rest | .and _ first rest | .or _ first rest => first :: rest

def left? : AndOr → Option AndOr
  | .pipeline _ _ => none
  | .and left _ _ | .or left _ _ => some left

-- The first `exit` that Bash reaches: its segment, and the status of the shell.
def bashExit (outcomes : Outcomes) (redirect : Redirect) : AndOr → Option (Nat × Int)
  | .pipeline first rest => (exitOf (first :: rest) redirect).map (0, ·)
  | .and left first rest =>
      match left.bashExit outcomes none with
      | some found => some found
      | none =>
          if (left.bash outcomes none).lastStatus = 0 then
            (exitOf (first :: rest) redirect).map (left.size, ·)
          else none
  | .or left first rest =>
      match left.bashExit outcomes none with
      | some found => some found
      | none =>
          if (left.bash outcomes none).lastStatus ≠ 0 then
            (exitOf (first :: rest) redirect).map (left.size, ·)
          else none

-- The segment is reached in Bash's order, and not behind an `exit`.
def Reaches (outcomes : Outcomes) (redirect : Redirect) (tree : AndOr) (si : Nat) : Prop :=
  (∃ action, (si, action) ∈ (tree.bash outcomes redirect).log) ∧
    ∀ k code, tree.bashExit outcomes redirect = some (k, code) → si ≤ k

def NoChange (outcomes : Outcomes) : AndOr → Prop
  | .pipeline first rest => ¬Changes outcomes 0 (first :: rest)
  | .and left first rest | .or left first rest =>
      left.NoChange outcomes ∧ ¬Changes outcomes left.size (first :: rest)

def ChangesReached (outcomes : Outcomes) : AndOr → Prop
  | .pipeline _ _ => True
  | .and left first rest => left.ChangesReached outcomes ∧
      (Changes outcomes left.size (first :: rest) → (left.bash outcomes none).lastStatus = 0)
  | .or left first rest => left.ChangesReached outcomes ∧
      (Changes outcomes left.size (first :: rest) → (left.bash outcomes none).lastStatus ≠ 0)

end AndOr

def ranIn : Except Execution Execution → List (Nat × Action)
  | .ok shell | .error shell => shell.log

-- The shell ends where Bash does, before any later segment, and changes its directory only where a
-- `cd` of a foreground line is reached.
structure ExitsAsBash (line : CommandLine) (tree : AndOr) (outcomes : Outcomes) : Prop where
  ends : ∀ code, (∃ log, handleLine line outcomes = .error ⟨log, code⟩) ↔
    line.isBackground = false ∧ ∃ si, tree.bashExit outcomes (redirectOf line) = some (si, code)
  silent : ∀ shell si code, handleLine line outcomes = .error shell →
    tree.bashExit outcomes (redirectOf line) = some (si, code) → ∀ entry ∈ shell.log, entry.1 ≤ si
  directory : ∀ si, Changed outcomes (ranIn (handleLine line outcomes)) si →
    line.isBackground = false ∧ tree.Reaches outcomes (redirectOf line) si

def DecidesRight (line : CommandLine) (outcomes : Outcomes) (tree : AndOr) : Prop :=
  if line.isBackground then
    tree.NoChange outcomes ∧ (tree.left? = none → singleCommand exitName tree.last = none)
  else
    tree.ChangesReached outcomes ∧
      match tree.left? with
      | none => singleCommand exitName tree.last ≠ none → redirectOf line = none
      | some left => left.bashExit outcomes none = none ∧
          (exitOf tree.last (redirectOf line) ≠ none → tree.Runs outcomes)

namespace AndOr

section Left

variable {tree left : AndOr} (found : tree.left? = some left)

include found

theorem size_left : tree.size = left.size + 1 := by
  cases tree <;> cases found <;> rfl

theorem segments_left : ∃ sepType, tree.segments = left.segments ++ [⟨tree.last, sepType⟩] := by
  cases tree <;> cases found <;> exact ⟨_, rfl⟩

theorem all_left (outcomes : Outcomes) (background : Bool) (redirect : Redirect) :
    tree.all outcomes background redirect =
      runSegment outcomes left.size tree.last redirect background
        (left.all outcomes background none) := by
  cases tree <;> cases found <;> rfl

theorem bash_left (outcomes : Outcomes) (redirect : Redirect) :
    tree.bash outcomes redirect =
      if tree.Runs outcomes then
        runSegment outcomes left.size tree.last redirect false (left.bash outcomes none)
      else left.bash outcomes none := by
  cases tree <;> cases found <;> rfl

theorem bashExit_left (outcomes : Outcomes) (redirect : Redirect) :
    tree.bashExit outcomes redirect =
      match left.bashExit outcomes none with
      | some found => some found
      | none =>
          if tree.Runs outcomes then (exitOf tree.last redirect).map (left.size, ·) else none := by
  cases tree <;> cases found <;> rfl

theorem noChange_left (outcomes : Outcomes) : tree.NoChange outcomes ↔
    left.NoChange outcomes ∧ ¬Changes outcomes left.size tree.last := by
  cases tree <;> cases found <;> rfl

theorem changesReached_left (outcomes : Outcomes) : tree.ChangesReached outcomes ↔
    left.ChangesReached outcomes ∧
      (Changes outcomes left.size tree.last → tree.Runs outcomes) := by
  cases tree <;> cases found <;> rfl

end Left

theorem last_cons (tree : AndOr) : ∃ first rest, tree.last = first :: rest := by
  cases tree <;> exact ⟨_, _, rfl⟩

theorem single {tree : AndOr} (alone : tree.left? = none) :
    ∃ first rest, tree = .pipeline first rest := by
  cases tree with
  | pipeline first rest => exact ⟨first, rest, rfl⟩
  | and | or => cases alone

end AndOr

theorem singleCommand_eq {name : Text} {cmds : List Command} {c : Command}
    (single : singleCommand name cmds = some c) : cmds = [c] ∧ c.exe = name := by
  unfold singleCommand at single
  split at single
  · split at single <;> cases single
    exact ⟨rfl, by assumption⟩
  · cases single

theorem exitOf_eq {cmds : List Command} {redirect : Redirect} {code : Int}
    (exits : exitOf cmds redirect = some code) :
    redirect = none ∧ ∃ c, cmds = [c] ∧ c.exe = exitName ∧ code = exitCode c.args := by
  unfold exitOf at exits
  split at exits
  · next terminal =>
      obtain ⟨c, single, same⟩ := Option.map_eq_some_iff.mp exits
      obtain ⟨cmds, name⟩ := singleCommand_eq single
      exact ⟨terminal, c, cmds, name, same.symm⟩
  · cases exits

theorem exitOf_isSome (cmds : List Command) (redirect : Redirect) :
    exitOf cmds redirect ≠ none ↔ (singleCommand exitName cmds).isSome ∧ redirect = none := by
  unfold exitOf
  cases singleCommand exitName cmds <;> simp

theorem exitCode_mod (args : List Text) : exitCode args % 256 = exitCode args := by
  cases args with
  | nil => rfl
  | cons arg args => exact Int.emod_emod_of_dvd _ (Int.dvd_refl 256)

theorem runSegment_shape (outcomes : Outcomes) (si : Nat) (cmds : List Command)
    (redirect : Redirect) (background : Bool) (shell : Execution) :
    ∃ action, (runSegment outcomes si cmds redirect background shell).log =
      shell.log ++ [(si, action)] ∧ ∀ path, action = .cd (some path) ∧ outcomes.chdir si = true →
        Changes outcomes si cmds := by
  unfold runSegment
  cases single : singleCommand cdName cmds with
  | none => exact ⟨_, rfl, by simp⟩
  | some c =>
      refine ⟨_, rfl, ?_⟩
      rintro path ⟨same, changed⟩
      exact ⟨⟨c, path, single, by simpa using same⟩, changed⟩

theorem runSegment_changes {outcomes : Outcomes} {si : Nat} {cmds : List Command}
    (changes : Changes outcomes si cmds) (redirect : Redirect) (background : Bool)
    (shell : Execution) : ∃ path, (runSegment outcomes si cmds redirect background shell).log =
      shell.log ++ [(si, .cd (some path))] := by
  obtain ⟨⟨c, path, single, head⟩, -⟩ := changes
  exact ⟨path, by rw [runSegment, single]; dsimp only; rw [head]⟩

section Loop

variable {line : CommandLine} {outcomes : Outcomes}

theorem executeSegment_inner {count si : Nat} (inner : si + 1 ≠ count) (first : Command)
    (rest : List Command) (sepType : SepType) (shell : Execution) :
    executeSegment line outcomes count si ⟨first :: rest, sepType⟩ shell =
      .ok (runSegment outcomes si (first :: rest) none line.isBackground shell) := by
  simp [executeSegment, inner]

theorem executeSegments_inner {count : Nat} (tree : AndOr) (inner : tree.size < count) :
    executeSegments line outcomes count 0 tree.segments ⟨[], 0⟩ =
      .ok (tree.all outcomes line.isBackground none) := by
  induction tree with
  | pipeline first rest =>
      have notLast : 0 + 1 ≠ count := Nat.ne_of_lt inner
      rw [AndOr.segments, executeSegments, executeSegment_inner notLast]
      rfl
  | and left first rest ih | or left first rest ih =>
      have notLast : left.size + 1 ≠ count := Nat.ne_of_lt inner
      rw [AndOr.segments, AndOr.executeSegments_append, ih (Nat.lt_of_succ_lt inner)]
      dsimp only
      rw [AndOr.segments_length, executeSegments, Nat.zero_add, executeSegment_inner notLast]
      rfl

def lastResult (line : CommandLine) (cmds : List Command) (shell : Execution) :
    Except Execution Execution :=
  if exitOf cmds (redirectOf line) ≠ none ∧ line.isBackground = false then
    .error { shell with lastStatus := shell.lastStatus % 256 }
  else .ok { shell with lastStatus := shell.lastStatus % 256 }

theorem executeSegment_last (si : Nat) (first : Command) (rest : List Command)
    (sepType : SepType) (shell : Execution) :
    executeSegment line outcomes (si + 1) si ⟨first :: rest, sepType⟩ shell =
      let shell' := runSegment outcomes si (first :: rest) (redirectOf line) line.isBackground shell
      if exitOf (first :: rest) (redirectOf line) ≠ none ∧ line.isBackground = false then
        .error { shell' with lastStatus := shell'.lastStatus % 256 }
      else .ok shell' := by
  rw [executeSegment, if_neg (by simp), if_pos rfl]
  dsimp only
  have test : ((singleCommand exitName (first :: rest)).isSome = true ∧ si + 1 = si + 1 ∧
      redirectOf line = none ∧ line.isBackground = false) ↔
        exitOf (first :: rest) (redirectOf line) ≠ none ∧ line.isBackground = false := by
    rw [exitOf_isSome]
    tauto
  exact if_congr test rfl rfl

theorem executeCommandLine_left {tree left : AndOr} (found : tree.left? = some left)
    (same : line.exprs = tree.exprs) : executeCommandLine line outcomes =
      lastResult line tree.last (tree.all outcomes line.isBackground (redirectOf line)) := by
  obtain ⟨sepType, split⟩ := AndOr.segments_left found
  obtain ⟨first, rest, last⟩ := tree.last_cons
  have early : earlyExit line tree.segments = none := by
    rw [split]
    cases before : left.segments with
    | nil =>
        have size := left.segments_length
        rw [before] at size
        cases left <;> cases size
    | cons seg rest => cases rest <;> rfl
  rw [executeCommandLine, same, AndOr.segments_exprs, early]
  dsimp only
  rw [AndOr.segments_length, split, AndOr.executeSegments_append,
    executeSegments_inner left (by rw [AndOr.size_left found]; exact Nat.lt_succ_self _),
    AndOr.size_left found, AndOr.all_left found, last]
  dsimp only
  rw [AndOr.segments_length, executeSegments, Nat.zero_add, executeSegment_last]
  rw [lastResult]
  by_cases exits : exitOf (first :: rest) (redirectOf line) ≠ none ∧ line.isBackground = false
  · rw [if_pos exits, if_pos exits]
  · rw [if_neg exits, if_neg exits]
    rfl

theorem mainExit_left {tree left : AndOr} (found : tree.left? = some left)
    (same : line.exprs = tree.exprs) : mainExit line = none := by
  have long : 1 < line.exprs.length := by
    rw [same]
    cases tree with
    | pipeline => cases found
    | and left first rest | or left first rest =>
        cases left <;> simp [AndOr.exprs, AndOr.pipelineExprs] <;> omega
  unfold mainExit
  split
  · next alone =>
      rw [alone] at long
      cases Nat.lt_irrefl _ long
  · rfl

theorem mainExit_single {first : Command} {rest : List Command}
    (same : line.exprs = (AndOr.pipeline first rest).exprs) :
    mainExit line = (singleCommand exitName (first :: rest)).map fun c => exitCode c.args := by
  rw [mainExit, same]
  cases rest with
  | nil =>
      simp only [AndOr.exprs, AndOr.pipelineExprs, List.flatMap_nil, singleCommand]
      split <;> rfl
  | cons cmd rest => rfl

theorem executeCommandLine_single {first : Command} {rest : List Command}
    (same : line.exprs = (AndOr.pipeline first rest).exprs)
    (other : singleCommand exitName (first :: rest) = none) : executeCommandLine line outcomes =
      let shell := runSegment outcomes 0 (first :: rest) (redirectOf line) line.isBackground ⟨[], 0⟩
      .ok { shell with lastStatus := shell.lastStatus % 256 } := by
  have early : earlyExit line (AndOr.pipeline first rest).segments = none := by
    simp [AndOr.segments, earlyExit, other]
  have inside : ¬(exitOf (first :: rest) (redirectOf line) ≠ none ∧ line.isBackground = false) := by
    simp [exitOf_isSome, other]
  rw [executeCommandLine, same, AndOr.segments_exprs, early]
  dsimp only
  rw [AndOr.segments_length, AndOr.size, AndOr.segments, executeSegments, executeSegment_last]
  dsimp only
  rw [if_neg inside]
  rfl

theorem handleLine_single {first : Command} {rest : List Command}
    (same : line.exprs = (AndOr.pipeline first rest).exprs) : handleLine line outcomes =
      match singleCommand exitName (first :: rest) with
      | some c => .error ⟨[], exitCode c.args⟩
      | none =>
          let shell :=
            runSegment outcomes 0 (first :: rest) (redirectOf line) line.isBackground ⟨[], 0⟩
          .ok { shell with lastStatus := shell.lastStatus % 256 } := by
  rw [handleLine, mainExit_single same]
  cases single : singleCommand exitName (first :: rest) with
  | some c => rfl
  | none => exact executeCommandLine_single same single

theorem handleLine_left {tree left : AndOr} (found : tree.left? = some left)
    (same : line.exprs = tree.exprs) : handleLine line outcomes =
      lastResult line tree.last (tree.all outcomes line.isBackground (redirectOf line)) := by
  rw [handleLine, mainExit_left found same]
  exact executeCommandLine_left found same

end Loop

namespace AndOr

theorem all_inside (outcomes : Outcomes) (background : Bool) (redirect : Redirect) (tree : AndOr) :
    ∀ entry ∈ (tree.all outcomes background redirect).log, entry.1 < tree.size := by
  induction tree generalizing redirect with
  | pipeline first rest =>
      obtain ⟨action, log, -⟩ :=
        runSegment_shape outcomes 0 (first :: rest) redirect background ⟨[], 0⟩
      rw [all, log]
      simp [size]
  | and left first rest ih | or left first rest ih =>
      obtain ⟨action, log, -⟩ := runSegment_shape outcomes left.size (first :: rest) redirect
        background (left.all outcomes background none)
      rw [all, log]
      intro entry mem
      rcases List.mem_append.mp mem with before | new
      · exact Nat.lt_succ_of_lt (ih none entry before)
      · rw [List.mem_singleton.mp new]
        exact Nat.lt_succ_self _

theorem bash_inside (outcomes : Outcomes) (redirect : Redirect) (tree : AndOr) :
    ∀ entry ∈ (tree.bash outcomes redirect).log, entry.1 < tree.size := by
  induction tree generalizing redirect with
  | pipeline first rest => exact all_inside outcomes false redirect (.pipeline first rest)
  | and left first rest ih | or left first rest ih =>
      intro entry mem
      rw [bash_left (by rfl)] at mem
      split at mem
      · obtain ⟨action, log, -⟩ := runSegment_shape outcomes left.size (first :: rest) redirect
          false (left.bash outcomes none)
        rw [last, log] at mem
        rcases List.mem_append.mp mem with before | new
        · exact Nat.lt_succ_of_lt (ih none entry before)
        · rw [List.mem_singleton.mp new]
          exact Nat.lt_succ_self _
      · exact Nat.lt_succ_of_lt (ih none entry mem)

theorem bashExit_inside {outcomes : Outcomes} {redirect : Redirect} {tree : AndOr} {k : Nat}
    {code : Int} (exits : tree.bashExit outcomes redirect = some (k, code)) : k < tree.size := by
  induction tree generalizing redirect with
  | pipeline first rest =>
      obtain ⟨_, -, same⟩ := Option.map_eq_some_iff.mp exits
      cases same
      exact Nat.lt_succ_self _
  | and left first rest ih | or left first rest ih =>
      rw [bashExit_left (by rfl)] at exits
      cases before : left.bashExit outcomes none with
      | some found =>
          rw [before] at exits
          cases exits
          exact Nat.lt_succ_of_lt (ih before)
      | none =>
          rw [before] at exits
          dsimp only at exits
          split at exits
          · obtain ⟨_, -, same⟩ := Option.map_eq_some_iff.mp exits
            cases same
            exact Nat.lt_succ_self _
          · cases exits

section Left

variable {tree left : AndOr} (found : tree.left? = some left)

include found

theorem reached_left (outcomes : Outcomes) (redirect : Redirect) {si : Nat}
    (before : si < left.size) : (∃ action, (si, action) ∈ (tree.bash outcomes redirect).log) ↔
      ∃ action, (si, action) ∈ (left.bash outcomes none).log := by
  rw [bash_left found]
  split
  · obtain ⟨action, log, -⟩ := runSegment_shape outcomes left.size tree.last redirect false
      (left.bash outcomes none)
    rw [log]
    simp only [List.mem_append, List.mem_singleton, Prod.mk.injEq, Nat.ne_of_lt before, false_and,
      or_false]
  · rfl

theorem reached_last (outcomes : Outcomes) (redirect : Redirect) :
    (∃ action, (left.size, action) ∈ (tree.bash outcomes redirect).log) ↔ tree.Runs outcomes := by
  rw [bash_left found]
  split
  · next runs =>
      obtain ⟨action, log, -⟩ := runSegment_shape outcomes left.size tree.last redirect false
        (left.bash outcomes none)
      rw [log]
      exact iff_of_true ⟨action, by simp⟩ runs
  · next skipped =>
      refine iff_of_false ?_ skipped
      rintro ⟨action, mem⟩
      exact Nat.lt_irrefl _ (left.bash_inside outcomes none _ mem)

end Left

theorem changed_segment (outcomes : Outcomes) (si si' : Nat) (cmds : List Command)
    (redirect : Redirect) (background : Bool) (shell : Execution) :
    Changed outcomes (runSegment outcomes si cmds redirect background shell).log si' ↔
      Changed outcomes shell.log si' ∨ si' = si ∧ Changes outcomes si cmds := by
  obtain ⟨action, log, changes⟩ := runSegment_shape outcomes si cmds redirect background shell
  constructor
  · rintro ⟨path, mem, changed⟩
    rw [log] at mem
    rcases List.mem_append.mp mem with before | new
    · exact Or.inl ⟨path, before, changed⟩
    · cases List.mem_singleton.mp new
      exact Or.inr ⟨rfl, changes path ⟨rfl, changed⟩⟩
  · rintro (⟨path, mem, changed⟩ | ⟨rfl, here⟩)
    · exact ⟨path, by rw [log]; exact List.mem_append_left _ mem, changed⟩
    · obtain ⟨path, log'⟩ := runSegment_changes here redirect background shell
      exact ⟨path, by rw [log']; simp, here.2⟩

theorem changed_inside {outcomes : Outcomes} {background : Bool} {redirect : Redirect}
    {tree : AndOr} {si : Nat}
    (changed : Changed outcomes (tree.all outcomes background redirect).log si) : si < tree.size :=
  have ⟨_, mem, _⟩ := changed
  tree.all_inside outcomes background redirect _ mem

theorem noChange_iff (outcomes : Outcomes) (background : Bool) (redirect : Redirect)
    (tree : AndOr) : (∀ si, ¬Changed outcomes (tree.all outcomes background redirect).log si) ↔
      tree.NoChange outcomes := by
  induction tree generalizing redirect with
  | pipeline first rest =>
      simp only [all, changed_segment, NoChange]
      simp [Changed]
  | and left first rest ih | or left first rest ih =>
      rw [noChange_left (by rfl), ← ih none, all_left (by rfl)]
      simp only [changed_segment]
      constructor
      · intro never
        exact ⟨fun si changed => never si (Or.inl changed),
          fun changes => never left.size (Or.inr ⟨rfl, changes⟩)⟩
      · rintro ⟨never, last⟩ si (changed | ⟨-, changes⟩)
        · exact never si changed
        · exact last changes

theorem changesReached_iff (outcomes : Outcomes) (background : Bool) (redirect : Redirect)
    (tree : AndOr) : (∀ si, Changed outcomes (tree.all outcomes background redirect).log si →
        ∃ action, (si, action) ∈ (tree.bash outcomes redirect).log) ↔
      tree.ChangesReached outcomes := by
  induction tree generalizing redirect with
  | pipeline first rest =>
      refine iff_of_true (fun si changed => ?_) True.intro
      obtain rfl : si = 0 := Nat.lt_one_iff.mp (changed_inside changed)
      obtain ⟨action, log, -⟩ := runSegment_shape outcomes 0 (first :: rest) redirect false ⟨[], 0⟩
      exact ⟨action, by rw [bash, log]; simp⟩
  | and left first rest ih | or left first rest ih =>
      rw [changesReached_left (by rfl), ← ih none, all_left (by rfl)]
      simp only [changed_segment]
      constructor
      · intro reached
        refine ⟨fun si changed => ?_, fun changes => ?_⟩
        · exact (reached_left (by rfl) outcomes redirect (changed_inside changed)).mp
            (reached si (Or.inl changed))
        · exact (reached_last (by rfl) outcomes redirect).mp
            (reached left.size (Or.inr ⟨rfl, changes⟩))
      · rintro ⟨before, last⟩ si (changed | ⟨rfl, changes⟩)
        · exact (reached_left (by rfl) outcomes redirect (changed_inside changed)).mpr
            (before si changed)
        · exact (reached_last (by rfl) outcomes redirect).mpr (last changes)

end AndOr

section Comparison

variable {line : CommandLine} {tree left : AndOr} {outcomes : Outcomes}

theorem ranIn_lastResult (cmds : List Command) (shell : Execution) :
    ranIn (lastResult line cmds shell) = shell.log := by
  unfold lastResult
  split <;> rfl

theorem segments_last (found : tree.left? = some left) (same : line.exprs = tree.exprs)
    (processes : Processes) : (processes.outcomes line).pipeline left.size =
      runPipeline processes left.size tree.last (redirectOf line) line.isBackground := by
  obtain ⟨sepType, split⟩ := AndOr.segments_left found
  have here : tree.segments[left.size]? = some ⟨tree.last, sepType⟩ := by
    rw [split, ← left.segments_length, List.getElem?_concat_length]
  have count : left.size + 1 = tree.segments.length := by
    rw [AndOr.segments_length, AndOr.size_left found]
  simp only [Processes.outcomes, same, AndOr.segments_exprs, here, if_pos count]
  rfl

theorem status_exit (found : tree.left? = some left) (same : line.exprs = tree.exprs)
    (foreground : line.isBackground = false) {code : Int}
    (exits : exitOf tree.last (redirectOf line) = some code) (processes : Processes) :
    (tree.all (processes.outcomes line) line.isBackground (redirectOf line)).lastStatus % 256 =
      code := by
  obtain ⟨terminal, c, last, name, rfl⟩ := exitOf_eq exits
  have other : c.exe ≠ cdName := by
    rw [name]
    decide
  have pipeline := segments_last found same processes
  rw [AndOr.all_left found, AndOr.runSegment_status, AndOr.segmentStatus, last, singleCommand,
    if_neg other]
  dsimp only
  rw [pipeline, last, runPipeline, foreground, terminal]
  dsimp only [List.getLast?_singleton]
  rw [if_neg (by simp), if_neg (by simp), if_neg other, if_pos name]
  exact exitCode_mod c.args

theorem exitsAsBash_background (found : tree.left? = some left) (same : line.exprs = tree.exprs)
    (background : line.isBackground = true) :
    ExitsAsBash line tree outcomes ↔ tree.NoChange outcomes := by
  have handled : handleLine line outcomes = .ok
      { tree.all outcomes line.isBackground (redirectOf line) with
        lastStatus :=
          (tree.all outcomes line.isBackground (redirectOf line)).lastStatus % 256 } := by
    rw [handleLine_left found same, lastResult, if_neg (by simp [background])]
  rw [← AndOr.noChange_iff outcomes line.isBackground (redirectOf line)]
  constructor
  · intro right si changed
    have foreground := (right.directory si (by rw [handled]; exact changed)).1
    rw [background] at foreground
    cases foreground
  · intro never
    refine ⟨?_, ?_, ?_⟩
    · simp [handled, background]
    · simp [handled]
    · intro si changed
      rw [handled] at changed
      exact absurd changed (never si)

theorem exitsAsBash_foreground (found : tree.left? = some left) (same : line.exprs = tree.exprs)
    (foreground : line.isBackground = false) (processes : Processes) :
    ExitsAsBash line tree (processes.outcomes line) ↔
      tree.ChangesReached (processes.outcomes line) ∧
        left.bashExit (processes.outcomes line) none = none ∧
        (exitOf tree.last (redirectOf line) ≠ none → tree.Runs (processes.outcomes line)) := by
  have handled : handleLine line (processes.outcomes line) = _ := handleLine_left found same
  have status : ∀ code, exitOf tree.last (redirectOf line) = some code →
      (tree.all (processes.outcomes line) line.isBackground (redirectOf line)).lastStatus % 256 =
        code := fun code exits => status_exit found same foreground exits processes
  generalize processes.outcomes line = outcomes at handled status ⊢
  have ran : ranIn (handleLine line outcomes) =
      (tree.all outcomes line.isBackground (redirectOf line)).log := by
    rw [handled, ranIn_lastResult]
  rw [← AndOr.changesReached_iff outcomes line.isBackground (redirectOf line)]
  constructor
  · rintro ⟨ends, silent, directory⟩
    have early : left.bashExit outcomes none = none := by
      by_contra early
      obtain ⟨⟨k, code⟩, exits⟩ := Option.ne_none_iff_exists'.mp early
      have whole : tree.bashExit outcomes (redirectOf line) = some (k, code) := by
        rw [AndOr.bashExit_left found, exits]
      obtain ⟨log, ended⟩ := (ends code).mpr ⟨foreground, k, whole⟩
      -- The shell has run its last segment by then.
      obtain ⟨action, last, -⟩ := runSegment_shape outcomes left.size tree.last (redirectOf line)
        line.isBackground (left.all outcomes line.isBackground none)
      have log' : log = (tree.all outcomes line.isBackground (redirectOf line)).log := by
        rw [← ran, ended, ranIn]
      have behind := silent _ k code ended whole (left.size, action)
        (by rw [log', AndOr.all_left found, last]; simp)
      exact Nat.not_le_of_lt (AndOr.bashExit_inside exits) behind
    refine ⟨fun si changed => (directory si (by rwa [ran])).2.1, early, fun exits => ?_⟩
    rw [lastResult, if_pos ⟨exits, foreground⟩] at handled
    obtain ⟨-, si, whole⟩ := (ends _).mp ⟨_, handled⟩
    rw [AndOr.bashExit_left found, early] at whole
    by_contra skipped
    dsimp only at whole
    rw [if_neg skipped] at whole
    cases whole
  · rintro ⟨reached, early, runs⟩
    have whole : tree.bashExit outcomes (redirectOf line) =
        (exitOf tree.last (redirectOf line)).map (left.size, ·) := by
      rw [AndOr.bashExit_left found, early]
      dsimp only
      split
      · rfl
      · next skipped =>
          by_cases exits : exitOf tree.last (redirectOf line) = none
          · rw [exits, Option.map_none]
          · exact absurd (runs exits) skipped
    have inside : ∀ si action,
        (si, action) ∈ (tree.bash outcomes (redirectOf line)).log → si ≤ left.size := by
      intro si action mem
      have bound := tree.bash_inside outcomes (redirectOf line) _ mem
      rw [AndOr.size_left found] at bound
      exact Nat.le_of_lt_succ bound
    have last : ∀ k code, tree.bashExit outcomes (redirectOf line) = some (k, code) →
        k = left.size := by
      intro k code exits
      rw [whole] at exits
      obtain ⟨_, -, same⟩ := Option.map_eq_some_iff.mp exits
      exact (congrArg Prod.fst same).symm
    refine ⟨fun code => ?_, ?_, ?_⟩
    · rw [handled, whole, lastResult]
      cases exits : exitOf tree.last (redirectOf line) with
      | none => simp
      | some found =>
          have same := status found exits
          simp [foreground, ← same]
    · intro shell si code ended exits entry mem
      have log : shell.log = (tree.all outcomes line.isBackground (redirectOf line)).log := by
        rw [← ran, ended, ranIn]
      rw [log] at mem
      have bound := tree.all_inside outcomes _ _ entry mem
      rw [AndOr.size_left found] at bound
      rw [last si code exits]
      exact Nat.le_of_lt_succ bound
    · intro si changed
      rw [ran] at changed
      obtain ⟨action, mem⟩ := reached si changed
      refine ⟨foreground, ⟨action, mem⟩, fun k code exits => ?_⟩
      rw [last k code exits]
      exact inside si action mem

-- `main` does not look at the redirection or at the background flag.
theorem exitsAsBash_exit {first : Command} {rest : List Command} {c : Command}
    (same : line.exprs = (AndOr.pipeline first rest).exprs)
    (single : singleCommand exitName (first :: rest) = some c) :
    ExitsAsBash line (.pipeline first rest) outcomes ↔
      line.isBackground = false ∧ redirectOf line = none := by
  have handled : handleLine line outcomes = _ := handleLine_single same
  rw [single] at handled
  constructor
  · intro right
    obtain ⟨foreground, si, exits⟩ := (right.ends (exitCode c.args)).mp ⟨[], handled⟩
    obtain ⟨code, exits, -⟩ := Option.map_eq_some_iff.mp exits
    exact ⟨foreground, (exitOf_eq exits).1⟩
  · rintro ⟨foreground, terminal⟩
    have exits : (AndOr.pipeline first rest).bashExit outcomes (redirectOf line) =
        some (0, exitCode c.args) := by
      simp [AndOr.bashExit, exitOf, terminal, single]
    refine ⟨fun code => ?_, ?_, ?_⟩
    · simp [handled, foreground, exits]
    · intro shell si code ended _ entry mem
      rw [handled] at ended
      cases ended
      cases mem
    · rintro si ⟨path, mem, -⟩
      rw [handled] at mem
      cases mem

theorem exitsAsBash_other {first : Command} {rest : List Command}
    (same : line.exprs = (AndOr.pipeline first rest).exprs)
    (other : singleCommand exitName (first :: rest) = none) :
    ExitsAsBash line (.pipeline first rest) outcomes ↔
      (line.isBackground = true → ¬Changes outcomes 0 (first :: rest)) := by
  have handled : handleLine line outcomes = _ := handleLine_single same
  rw [other] at handled
  have silent : (AndOr.pipeline first rest).bashExit outcomes (redirectOf line) = none := by
    simp [AndOr.bashExit, exitOf, other]
  have changed : ∀ si, Changed outcomes (ranIn (handleLine line outcomes)) si ↔
      si = 0 ∧ Changes outcomes 0 (first :: rest) := by
    intro si
    rw [handled]
    exact (AndOr.changed_segment outcomes 0 si (first :: rest) _ _ _).trans (by simp [Changed])
  constructor
  · intro right background changes
    have foreground := (right.directory 0 ((changed 0).mpr ⟨rfl, changes⟩)).1
    rw [background] at foreground
    cases foreground
  · intro never
    refine ⟨fun code => ?_, ?_, ?_⟩
    · simp [handled, silent]
    · simp [silent]
    · intro si changes
      obtain ⟨rfl, here⟩ := (changed si).mp changes
      obtain ⟨action, log, -⟩ := runSegment_shape outcomes 0 (first :: rest) (redirectOf line)
        false ⟨[], 0⟩
      refine ⟨?_, ⟨action, ?_⟩, by simp [silent]⟩
      · cases background : line.isBackground with
        | false => rfl
        | true => exact absurd here (never background)
      · rw [AndOr.bash, log]
        simp

theorem exitsAsBash_iff (same : line.exprs = tree.exprs) (processes : Processes) :
    ExitsAsBash line tree (processes.outcomes line) ↔
      DecidesRight line (processes.outcomes line) tree := by
  unfold DecidesRight
  cases found : tree.left? with
  | none =>
      obtain ⟨first, rest, rfl⟩ := AndOr.single found
      cases single : singleCommand exitName (first :: rest) with
      | none =>
          rw [exitsAsBash_other same single]
          cases line.isBackground <;>
            simp [AndOr.NoChange, AndOr.ChangesReached, AndOr.last, single]
      | some c =>
          rw [exitsAsBash_exit same single]
          cases line.isBackground <;>
            simp [AndOr.NoChange, AndOr.ChangesReached, AndOr.last, single]
  | some left =>
      cases background : line.isBackground with
      | true =>
          rw [exitsAsBash_background found same background]
          simp
      | false =>
          rw [exitsAsBash_foreground found same background]
          simp

end Comparison

theorem handleLine_exit_iff {p left : Parser} {code : ParserError} {line : CommandLine}
    (popped : parserPopNext p = some (code, some line, left)) (processes : Processes) :
    (∃ tree : AndOr, line.exprs = tree.exprs) ∧
      ∀ tree : AndOr, line.exprs = tree.exprs →
        (ExitsAsBash line tree (processes.outcomes line) ↔
          DecidesRight line (processes.outcomes line) tree) :=
  ⟨parserPopNext_andOr popped, fun _ same => exitsAsBash_iff same processes⟩

def exitLastText : Text := [byte 'a', byte '&', byte '&'] ++ exitName ++ [byte '\n']

def exitLastTree : AndOr := .and (.pipeline ⟨[byte 'a'], []⟩ []) ⟨exitName, []⟩ []

def exitFirstText : Text := exitName ++ [byte '&', byte '&', byte 'a', byte '\n']

def exitFirstTree : AndOr := .and (.pipeline ⟨exitName, []⟩ []) ⟨[byte 'a'], []⟩ []

theorem exitLastText_popped :
    parserPopNext ⟨exitLastText⟩ = some (.none, some (lineOf exitLastTree.exprs), ⟨[]⟩) := by
  decide +kernel

theorem exitFirstText_popped :
    parserPopNext ⟨exitFirstText⟩ = some (.none, some (lineOf exitFirstTree.exprs), ⟨[]⟩) := by
  decide +kernel

def succeed : Processes := ⟨fun _ => 0, fun _ => true, true⟩

theorem handleLine_exit_last : ∃ log,
    handleLine (lineOf exitLastTree.exprs) (succeed.outcomes (lineOf exitLastTree.exprs)) =
      .error ⟨log, 0⟩ := by
  have right := ((handleLine_exit_iff exitLastText_popped succeed).2 exitLastTree rfl).mpr (by
    refine ⟨⟨True.intro, fun _ => by decide⟩, by decide, fun _ => by decide⟩)
  exact (right.ends 0).mpr ⟨rfl, 1, by decide⟩

theorem handleLine_exit_first :
    parserPopNext ⟨exitFirstText⟩ = some (.none, some (lineOf exitFirstTree.exprs), ⟨[]⟩) ∧
      ¬ExitsAsBash (lineOf exitFirstTree.exprs) exitFirstTree
        (succeed.outcomes (lineOf exitFirstTree.exprs)) := by
  refine ⟨exitFirstText_popped, fun right => ?_⟩
  obtain ⟨log, ended⟩ := (right.ends 0).mpr ⟨rfl, 0, by decide⟩
  have goes : handleLine (lineOf exitFirstTree.exprs)
      (succeed.outcomes (lineOf exitFirstTree.exprs)) =
        .ok ⟨[(0, .runPipeline [⟨exitName, []⟩] none false),
          (1, .runPipeline [⟨[byte 'a'], []⟩] none false)], 0⟩ := rfl
  rw [goes] at ended
  cases ended

end SystemProg.Shell
