import SystemProg.Lib.Descriptors
import SystemProg.Shell.Execute

set_option autoImplicit false

-- `run_pipeline` of `2/solution.cpp`. The processes of a pipeline as their descriptor tables, up to
-- the point where each child runs its command and the shell waits.

namespace SystemProg.Shell

inductive OutFlag where
  | trunc
  | append
deriving DecidableEq, Repr

-- What a descriptor leads to: something the shell had open before, an end of the pipe of the `n`-th
-- call of `pipe`, or the output file.
inductive OpenFile (F : Type) where
  | other (file : F)
  | pipeRead (pipe : Nat)
  | pipeWrite (pipe : Nat)
  | outFile (path : Text) (flag : OutFlag)
deriving DecidableEq, Repr

-- Which system calls succeed: each by the round of its loop, those of a child by its index.
structure Calls where
  pipe : Nat → Bool
  fork : Nat → Bool
  dup2Stdin : Nat → Bool
  dup2Stdout : Nat → Bool
  openFile : Bool

-- A forked child in front of its command, or after `_exit` in its set-up.
inductive Child (F : Type) where
  | runs (cmd : Command) (fds : Table (OpenFile F))
  | exited (code : Int)

structure Pipeline (F : Type) where
  shell : Table (OpenFile F)
  children : List (Child F)

def stdin : Nat := 0
def stdout : Nat := 1

section Source

variable {F : Type}

def openPipe (i : Nat) (t : Table (OpenFile F)) : (Nat × Nat) × Table (OpenFile F) :=
  let (readFd, t) := t.install (.pipeRead i)
  let (writeFd, t) := t.install (.pipeWrite i)
  ((readFd, writeFd), t)

-- The first loop: `count` more pipes from the `i`-th on. A failed call leaves the earlier pipes
-- open.
def createPipes (calls : Calls) : Nat → Nat → Table (OpenFile F) → List Nat →
    Except (Table (OpenFile F)) (Table (OpenFile F) × List Nat)
  | 0, _, t, pipefds => .ok (t, pipefds)
  | count + 1, i, t, pipefds =>
      if calls.pipe i then
        let (fds, t) := openPipe i t
        createPipes calls count (i + 1) t (pipefds ++ [fds.1, fds.2])
      else .error t

def tryDup2 (succeeds : Bool) (t : Table (OpenFile F)) (old : Option Nat) (new : Nat) :
    Option (Table (OpenFile F)) :=
  if succeeds then old.bind fun fd => t.dup2 fd new else none

def outFlag (outType : OutputType) : OutFlag := if outType = .fileNew then .trunc else .append

def redirectStdout (calls : Calls) (i : Nat) (redirect : Redirect) (t : Table (OpenFile F)) :
    Option (Table (OpenFile F)) :=
  match redirect with
  | none => some t
  | some (outType, outFile) =>
      if calls.openFile then
        let (fd, t) := t.install (.outFile outFile (outFlag outType))
        (tryDup2 (calls.dup2Stdout i) t (some fd) stdout).map fun t => t.close fd
      else none

def setUpStdin (calls : Calls) (pipefds : List Nat) (i : Nat) (t : Table (OpenFile F)) :
    Option (Table (OpenFile F)) :=
  if i > 0 then tryDup2 (calls.dup2Stdin i) t pipefds[(i - 1) * 2 + 0]? stdin else some t

def setUpStdout (calls : Calls) (n : Nat) (redirect : Redirect) (pipefds : List Nat) (i : Nat)
    (t : Table (OpenFile F)) : Option (Table (OpenFile F)) :=
  if i + 1 < n then tryDup2 (calls.dup2Stdout i) t pipefds[i * 2 + 1]? stdout
  else redirectStdout calls i redirect t

-- The child's part of the second loop; no result is `_exit(127)`.
def setUp (calls : Calls) (n : Nat) (redirect : Redirect) (pipefds : List Nat) (i : Nat)
    (t : Table (OpenFile F)) : Option (Table (OpenFile F)) := do
  let t ← setUpStdin calls pipefds i t
  let t ← setUpStdout calls n redirect pipefds i t
  pure (t.closeAll pipefds)

def forkedChild (calls : Calls) (n : Nat) (redirect : Redirect) (pipefds : List Nat) (i : Nat)
    (cmd : Command) (t : Table (OpenFile F)) : Child F :=
  match setUp calls n redirect pipefds i t with
  | some fds => .runs cmd fds
  | none => .exited 127

def forkAll (calls : Calls) (n : Nat) (redirect : Redirect) (pipefds : List Nat) :
    Nat → List Command → Pipeline F → Except (Pipeline F) (Pipeline F)
  | _, [], procs => .ok procs
  | i, cmd :: rest, procs =>
      if calls.fork i then
        forkAll calls n redirect pipefds (i + 1) rest
          { procs with
            children := procs.children ++ [forkedChild calls n redirect pipefds i cmd procs.shell] }
      else .error { procs with shell := procs.shell.closeAll pipefds }

inductive Launch (F : Type) where
  | returned (status : Int) (procs : Pipeline F)
  -- in the background the call returns 0 here, otherwise it waits for the last child
  | launched (procs : Pipeline F)

def launchPipeline (calls : Calls) (cmds : List Command) (redirect : Redirect)
    (shell : Table (OpenFile F)) : Launch F :=
  let n := cmds.length
  if n = 0 then .returned 0 ⟨shell, []⟩
  else
    match createPipes calls (n - 1) 0 shell [] with
    | .error shell => .returned (-1) ⟨shell, []⟩
    | .ok (shell, pipefds) =>
        match forkAll calls n redirect pipefds 0 cmds ⟨shell, []⟩ with
        | .error procs => .returned (-1) procs
        | .ok procs => .launched { procs with shell := procs.shell.closeAll pipefds }

end Source

section Pipes

variable {F : Type}

-- The table after some rounds of the first loop: the descriptors in `pipefds` are new and lead to
-- the ends of the pipes, in their order.
structure Piped (start t : Table (OpenFile F)) (pipefds : List Nat) (count : Nat) : Prop where
  length : pipefds.length = 2 * count
  fresh : ∀ fd ∈ pipefds, start.file fd = none
  kept : ∀ fd, fd ∉ pipefds → t.file fd = start.file fd
  reads : ∀ j < count, ∃ fd, pipefds[j * 2 + 0]? = some fd ∧ t.file fd = some (.pipeRead j)
  writes : ∀ j < count, ∃ fd, pipefds[j * 2 + 1]? = some fd ∧ t.file fd = some (.pipeWrite j)

theorem Piped.initial (start : Table (OpenFile F)) : Piped start start [] 0 where
  length := rfl
  fresh := fun _ inside => absurd inside List.not_mem_nil
  kept := fun _ _ => rfl
  reads := fun j before => absurd before (Nat.not_lt_zero j)
  writes := fun j before => absurd before (Nat.not_lt_zero j)

theorem openPipe_file (i : Nat) (t : Table (OpenFile F)) {fds : Nat × Nat}
    {t' : Table (OpenFile F)} (opened : openPipe i t = (fds, t')) :
    t.file fds.1 = none ∧ t.file fds.2 = none ∧ t'.file fds.1 = some (.pipeRead i) ∧
      t'.file fds.2 = some (.pipeWrite i) ∧
      ∀ fd, fd ≠ fds.1 → fd ≠ fds.2 → t'.file fd = t.file fd := by
  cases opened
  let first := t.put t.lowestFree (some (.pipeRead i))
  have free := t.lowestFree_closed
  have free' : first.file first.lowestFree = none := first.lowestFree_closed
  have apart : first.lowestFree ≠ t.lowestFree := by
    intro same
    rw [same, Table.put_file, if_pos rfl] at free'
    cases free'
  have later : t.file first.lowestFree = none := by
    rw [Table.put_file, if_neg apart] at free'
    exact free'
  refine ⟨free, later, ?_, ?_, fun fd one two => ?_⟩
  · change (first.put first.lowestFree _).file t.lowestFree = _
    rw [Table.put_file, if_neg apart.symm, Table.put_file, if_pos rfl]
  · change (first.put first.lowestFree _).file first.lowestFree = _
    rw [Table.put_file, if_pos rfl]
  · change (first.put first.lowestFree _).file fd = _
    rw [Table.put_file, if_neg two, Table.put_file, if_neg one]

theorem Piped.snoc {start t : Table (OpenFile F)} {pipefds : List Nat} {count : Nat}
    (piped : Piped start t pipefds count) {fds : Nat × Nat} {t' : Table (OpenFile F)}
    (opened : openPipe count t = (fds, t')) :
    Piped start t' (pipefds ++ [fds.1, fds.2]) (count + 1) := by
  obtain ⟨readFree, writeFree, readEnd, writeEnd, others⟩ := openPipe_file count t opened
  have free : ∀ fd, t.file fd = none → start.file fd = none := by
    intro fd closed
    by_cases own : fd ∈ pipefds
    · exact piped.fresh fd own
    · rw [← piped.kept fd own, closed]
  -- an end that is in place stays, since the new descriptors were closed
  have stays : ∀ fd file, t.file fd = some file → t'.file fd = some file := by
    intro fd file there
    rw [others fd, there]
    · rintro rfl
      rw [readFree] at there
      cases there
    · rintro rfl
      rw [writeFree] at there
      cases there
  have last : ∀ k, (pipefds ++ [fds.1, fds.2])[count * 2 + k]? = [fds.1, fds.2][k]? := by
    intro k
    rw [List.getElem?_append_right (by rw [piped.length]; omega), piped.length]
    congr 1
    omega
  refine ⟨?_, ?_, ?_, ?_, ?_⟩
  · rw [List.length_append, piped.length, List.length_cons, List.length_singleton]
    omega
  · intro fd inside
    rcases List.mem_append.mp inside with old | new
    · exact piped.fresh fd old
    · have place : fd = fds.1 ∨ fd = fds.2 := by simpa using new
      rcases place with rfl | rfl
      · exact free _ readFree
      · exact free _ writeFree
  · intro fd outside
    simp only [List.mem_append, List.mem_cons, List.not_mem_nil, or_false, not_or] at outside
    rw [others fd outside.2.1 outside.2.2, piped.kept fd outside.1]
  · intro j before
    by_cases new : j = count
    · exact ⟨fds.1, by rw [new, last]; rfl, new ▸ readEnd⟩
    · obtain ⟨fd, place, there⟩ := piped.reads j (by omega)
      have inside := (List.getElem?_eq_some_iff.mp place).1
      exact ⟨fd, by rw [List.getElem?_append_left inside, place], stays _ _ there⟩
  · intro j before
    by_cases new : j = count
    · exact ⟨fds.2, by rw [new, last]; rfl, new ▸ writeEnd⟩
    · obtain ⟨fd, place, there⟩ := piped.writes j (by omega)
      have inside := (List.getElem?_eq_some_iff.mp place).1
      exact ⟨fd, by rw [List.getElem?_append_left inside, place], stays _ _ there⟩

theorem createPipes_piped {calls : Calls} (succeed : ∀ i, calls.pipe i = true) (count : Nat)
    {start t : Table (OpenFile F)} {pipefds : List Nat} {i : Nat} (piped : Piped start t pipefds i) :
    ∃ t' pipefds', createPipes calls count i t pipefds = .ok (t', pipefds') ∧
      Piped start t' pipefds' (i + count) := by
  induction count generalizing i t pipefds with
  | zero => exact ⟨t, pipefds, rfl, piped⟩
  | succ count ih =>
      have opened : openPipe i t = ((openPipe i t).1, (openPipe i t).2) := rfl
      obtain ⟨t', pipefds', run, done⟩ := ih (piped.snoc opened)
      refine ⟨t', pipefds', ?_, ?_⟩
      · rw [createPipes, if_pos (succeed i)]
        exact run
      · rw [show i + (count + 1) = i + 1 + count by omega]
        exact done

end Pipes

section Children

variable {F : Type}

def stdinOf (start : Table (OpenFile F)) (i : Nat) : Option (OpenFile F) :=
  if i > 0 then some (.pipeRead (i - 1)) else start.file stdin

def redirected (redirect : Redirect) (file : Option (OpenFile F)) : Option (OpenFile F) :=
  match redirect with
  | none => file
  | some (outType, outFile) => some (.outFile outFile (outFlag outType))

def stdoutOf (start : Table (OpenFile F)) (n : Nat) (redirect : Redirect) (i : Nat) :
    Option (OpenFile F) :=
  if i + 1 < n then some (.pipeWrite i) else redirected redirect (start.file stdout)

-- The calls that the pipeline cannot do without; the output file may fail to open.
structure Calls.Succeed (calls : Calls) : Prop where
  pipe : ∀ i, calls.pipe i = true
  fork : ∀ i, calls.fork i = true
  dup2Stdin : ∀ i, calls.dup2Stdin i = true
  dup2Stdout : ∀ i, calls.dup2Stdout i = true

variable {calls : Calls} (succeed : calls.Succeed) {start t : Table (OpenFile F)} {pipefds : List Nat}

include succeed

theorem redirectStdout_file {redirect : Redirect} (opens : redirect = none ∨ calls.openFile = true)
    (i : Nat) (opened : (t.file stdout).isSome) :
    ∃ t', redirectStdout calls i redirect t = some t' ∧ ∀ fd, t'.file fd =
      if fd = stdout then redirected redirect (t.file stdout) else t.file fd := by
  cases redirect with
  | none =>
      refine ⟨t, rfl, fun fd => ?_⟩
      split
      · next same => rw [same, redirected]
      · rfl
  | some out =>
      obtain ⟨outType, outFile⟩ := out
      have opens : calls.openFile = true := by simpa using opens
      let a : OpenFile F := .outFile outFile (outFlag outType)
      have there : (t.install a).2.file (t.install a).1 = some a := by
        change (t.put t.lowestFree (some a)).file t.lowestFree = _
        rw [Table.put_file, if_pos rfl]
      refine ⟨_, ?_, fun fd => (t.install_moved a opened fd).trans (Table.put_file ..)⟩
      unfold redirectStdout
      simp only [opens, if_true, tryDup2, succeed.dup2Stdout, Option.bind_some]
      rw [Table.dup2_of_open there]
      rfl

variable (opened : ∀ fd < 3, (start.file fd).isSome) {n : Nat} (piped : Piped start t pipefds (n - 1))

include opened piped

omit succeed in
theorem Piped.standard {fd : Nat} (low : fd < 3) : fd ∉ pipefds := by
  intro inside
  have standard := opened fd low
  rw [piped.fresh fd inside] at standard
  cases standard

theorem setUpStdin_file {i : Nat} (inside : i < n) :
    ∃ t', setUpStdin calls pipefds i t = some t' ∧
      ∀ fd, t'.file fd = if fd = stdin then stdinOf start i else t.file fd := by
  unfold setUpStdin stdinOf
  by_cases later : i > 0
  · obtain ⟨readFd, place, there⟩ := piped.reads (i - 1) (by omega)
    refine ⟨t.put stdin (some (.pipeRead (i - 1))), ?_, fun fd => ?_⟩
    · rw [if_pos later, place, tryDup2, succeed.dup2Stdin, if_pos rfl, Option.bind_some,
        Table.dup2_of_open there]
    · rw [Table.put_file, if_pos later]
  · have kept := piped.kept stdin (piped.standard opened (by decide))
    refine ⟨t, if_neg later, fun fd => ?_⟩
    rw [if_neg later, ← kept]
    split
    · next same => rw [same]
    · rfl

theorem setUpStdout_file {redirect : Redirect} {i : Nat}
    (opens : i + 1 < n ∨ redirect = none ∨ calls.openFile = true) {t₁ : Table (OpenFile F)}
    (rest : ∀ fd, fd ≠ stdin → t₁.file fd = t.file fd) :
    ∃ t', setUpStdout calls n redirect pipefds i t₁ = some t' ∧
      ∀ fd, t'.file fd = if fd = stdout then stdoutOf start n redirect i else t₁.file fd := by
  unfold setUpStdout stdoutOf
  by_cases middle : i + 1 < n
  · obtain ⟨writeFd, place, there⟩ := piped.writes i (by omega)
    have apart : writeFd ≠ stdin := by
      rintro rfl
      exact piped.standard opened (by decide) (List.mem_of_getElem? place)
    rw [← rest writeFd apart] at there
    refine ⟨t₁.put stdout (some (.pipeWrite i)), ?_, fun fd => ?_⟩
    · rw [if_pos middle, place, tryDup2, succeed.dup2Stdout, if_pos rfl, Option.bind_some,
        Table.dup2_of_open there]
    · rw [Table.put_file, if_pos middle]
  · have kept : t₁.file stdout = start.file stdout := by
      rw [rest stdout (by decide), piped.kept stdout (piped.standard opened (by decide))]
    obtain ⟨t₂, run, output⟩ := redirectStdout_file succeed (opens.resolve_left middle) i
      (t := t₁) (by rw [kept]; exact opened stdout (by decide))
    refine ⟨t₂, (if_neg middle).trans run, fun fd => ?_⟩
    rw [output, if_neg middle, kept]

theorem setUp_file {redirect : Redirect} {i : Nat} (inside : i < n)
    (opens : i + 1 < n ∨ redirect = none ∨ calls.openFile = true) :
    ∃ t', setUp calls n redirect pipefds i t = some t' ∧ ∀ fd, t'.file fd =
      if fd = stdin then stdinOf start i
      else if fd = stdout then stdoutOf start n redirect i else start.file fd := by
  obtain ⟨t₁, first, input⟩ := setUpStdin_file succeed opened piped inside
  obtain ⟨t₂, second, output⟩ := setUpStdout_file succeed opened piped opens
    (fun fd other => by rw [input, if_neg other])
  refine ⟨t₂.closeAll pipefds, ?_, fun fd => ?_⟩
  · rw [setUp, first, Option.bind_eq_bind, Option.bind_some, second]
    rfl
  · rw [Table.closeAll_file, output, input]
    by_cases own : fd ∈ pipefds
    · have low : ∀ standard < 3, fd ≠ standard := by
        rintro standard low rfl
        exact piped.standard opened low own
      rw [if_pos own, if_neg (low stdin (by decide)), if_neg (low stdout (by decide)),
        piped.fresh fd own]
    · rw [if_neg own, piped.kept fd own]
      by_cases isInput : fd = stdin
      · rw [if_pos isInput, if_pos isInput, if_neg (by rw [isInput]; decide)]
      · rw [if_neg isInput, if_neg isInput]

theorem setUp_fails {redirect : Redirect} {i : Nat} (inside : i < n) (last : ¬ i + 1 < n)
    (redirected : redirect ≠ none) (fails : calls.openFile = false) :
    setUp calls n redirect pipefds i t = none := by
  obtain ⟨t₁, first, -⟩ := setUpStdin_file succeed opened piped inside
  obtain ⟨out, rfl⟩ := Option.ne_none_iff_exists'.mp redirected
  rw [setUp, first, Option.bind_eq_bind, Option.bind_some, setUpStdout, if_neg last]
  simp [redirectStdout, fails]

omit opened piped

theorem forkAll_ok (n : Nat) (redirect : Redirect) (pipefds : List Nat) (i : Nat)
    (cmds : List Command) (procs : Pipeline F) :
    forkAll calls n redirect pipefds i cmds procs = .ok { procs with
      children := procs.children ++ (cmds.zipIdx i).map fun (cmd, k) =>
        forkedChild calls n redirect pipefds k cmd procs.shell } := by
  induction cmds generalizing i procs with
  | nil => simp [forkAll]
  | cons cmd rest ih =>
      rw [forkAll, if_pos (succeed.fork i), ih]
      simp

end Children

inductive Process where
  | shell
  | child (i : Nat)

section Launched

variable {F : Type}

def Pipeline.fds (procs : Pipeline F) : Process → Option (Table (OpenFile F))
  | .shell => some procs.shell
  | .child i =>
      match procs.children[i]? with
      | some (.runs _ fds) => some fds
      | _ => none

def Pipeline.Holds (procs : Pipeline F) (p : Process) (fd : Nat) (file : OpenFile F) : Prop :=
  ∃ t, procs.fds p = some t ∧ t.file fd = some file

-- Each pipe joins two neighbours. Only the last child can be gone, when its output file could not
-- be opened.
structure Pipeline.Plumbed (procs : Pipeline F) (shell : Table F) (cmds : List Command)
    (redirect : Redirect) (opens : Bool) : Prop where
  forked : procs.children.length = cmds.length
  running : ∀ i cmd, cmds[i]? = some cmd → i + 1 < cmds.length ∨ redirect = none ∨ opens = true →
    ∃ fds, procs.children[i]? = some (.runs cmd fds)
  gone : redirect ≠ none → opens = false →
    procs.children[cmds.length - 1]? = some (.exited 127)
  writeEnd : ∀ j, j + 1 < cmds.length → ∀ p fd,
    procs.Holds p fd (.pipeWrite j) ↔ p = .child j ∧ fd = stdout
  readEnd : ∀ j, j + 1 < cmds.length → ∀ p fd, procs.Holds p fd (.pipeRead j) ↔
    p = .child (j + 1) ∧ fd = stdin ∧ (procs.fds (.child (j + 1))).isSome
  restored : ∀ fd, procs.shell.file fd = (shell.file fd).map .other
  firstInput : ∀ t, procs.fds (.child 0) = some t →
    t.file stdin = (shell.file stdin).map .other
  lastOutput : ∀ t, procs.fds (.child (cmds.length - 1)) = some t →
    t.file stdout = redirected redirect ((shell.file stdout).map .other)

structure Pipeline.Tables (procs : Pipeline F) (start : Table (OpenFile F)) (n : Nat)
    (redirect : Redirect) : Prop where
  shell : ∀ fd, procs.shell.file fd = start.file fd
  child : ∀ i t, procs.fds (.child i) = some t → i < n ∧ ∀ fd, t.file fd =
    if fd = stdin then stdinOf start i
    else if fd = stdout then stdoutOf start n redirect i else start.file fd

section Ends

variable {shell : Table F} {procs : Pipeline F} {n : Nat} {redirect : Redirect}
  (tables : procs.Tables (shell.map .other) n redirect)

include tables

theorem holds_new {p : Process} {fd : Nat} {file : OpenFile F} (held : procs.Holds p fd file)
    (new : ∀ f, file ≠ .other f) :
    ∃ i, p = .child i ∧ (fd = stdin ∧ 0 < i ∧ file = .pipeRead (i - 1) ∨
      fd = stdout ∧ i + 1 < n ∧ file = .pipeWrite i ∨
        fd = stdout ∧ ∃ path flag, file = .outFile path flag) := by
  obtain ⟨t, owner, there⟩ := held
  have old : ∀ fd, (shell.map OpenFile.other).file fd ≠ some file := by
    intro fd there
    obtain ⟨f, -, same⟩ := Option.map_eq_some_iff.mp there
    exact new f same.symm
  cases p with
  | shell =>
      cases owner
      exact absurd (tables.shell fd ▸ there) (old fd)
  | child i =>
      refine ⟨i, rfl, ?_⟩
      rw [(tables.child i t owner).2] at there
      split at there
      · next input =>
          unfold stdinOf at there
          split at there
          · next later => exact Or.inl ⟨input, later, (Option.some.inj there).symm⟩
          · exact absurd there (old _)
      · split at there
        · next output =>
            unfold stdoutOf at there
            split at there
            · next middle => exact Or.inr (Or.inl ⟨output, middle, (Option.some.inj there).symm⟩)
            · cases redirect with
              | none => exact absurd there (old _)
              | some out => exact Or.inr (Or.inr ⟨output, _, _, (Option.some.inj there).symm⟩)
        · exact absurd there (old _)

theorem holds_write {j : Nat} (middle : j + 1 < n) (started : (procs.fds (.child j)).isSome)
    (p : Process) (fd : Nat) : procs.Holds p fd (.pipeWrite j) ↔ p = .child j ∧ fd = stdout := by
  constructor
  · intro held
    obtain ⟨i, rfl, ⟨-, -, same⟩ | ⟨output, -, same⟩ | ⟨-, _, _, same⟩⟩ :=
      holds_new tables held (fun _ => by simp)
    · cases same
    · cases same
      exact ⟨rfl, output⟩
    · cases same
  · rintro ⟨rfl, rfl⟩
    obtain ⟨t, owner⟩ := Option.isSome_iff_exists.mp started
    refine ⟨t, owner, ?_⟩
    rw [(tables.child j t owner).2, if_neg (by decide), if_pos rfl, stdoutOf, if_pos middle]

theorem holds_read {j : Nat} (p : Process) (fd : Nat) : procs.Holds p fd (.pipeRead j) ↔
    p = .child (j + 1) ∧ fd = stdin ∧ (procs.fds (.child (j + 1))).isSome := by
  constructor
  · intro held
    obtain ⟨i, rfl, ⟨input, later, same⟩ | ⟨-, -, same⟩ | ⟨-, _, _, same⟩⟩ :=
      holds_new tables held (fun _ => by simp)
    · cases same
      obtain ⟨t, owner, -⟩ := held
      have next : i - 1 + 1 = i := Nat.sub_add_cancel later
      rw [next]
      exact ⟨rfl, input, by rw [owner]; rfl⟩
    · cases same
    · cases same
  · rintro ⟨rfl, rfl, started⟩
    obtain ⟨t, owner⟩ := Option.isSome_iff_exists.mp started
    refine ⟨t, owner, ?_⟩
    rw [(tables.child (j + 1) t owner).2, if_pos rfl, stdinOf, if_pos (Nat.succ_pos j)]
    rfl

end Ends

section Children

variable {calls : Calls} {shell : Table (OpenFile F)} {t : Table (OpenFile F)} {pipefds : List Nat}
  {cmds : List Command} {redirect : Redirect} {procs : Pipeline F}
  (forked : ∀ i, procs.children[i]? = cmds[i]?.map fun cmd =>
    forkedChild calls cmds.length redirect pipefds i cmd t)

include forked

theorem child_fds {i : Nat} {fds : Table (OpenFile F)} :
    procs.fds (.child i) = some fds ↔
      i < cmds.length ∧ setUp calls cmds.length redirect pipefds i t = some fds := by
  simp only [Pipeline.fds, forked]
  by_cases inside : i < cmds.length
  · rw [List.getElem?_eq_getElem inside, Option.map_some, forkedChild]
    cases setUp calls cmds.length redirect pipefds i t with
    | none => simp
    | some fds' => simp [inside]
  · rw [List.getElem?_eq_none (Nat.not_lt.mp inside)]
    simp [inside]

variable (succeed : calls.Succeed) (opened : ∀ fd < 3, (shell.file fd).isSome)
  (piped : Piped shell t pipefds (cmds.length - 1))

include succeed opened piped

theorem child_table (i : Nat) (fds : Table (OpenFile F)) (owner : procs.fds (.child i) = some fds) :
    i < cmds.length ∧ ∀ fd, fds.file fd = if fd = stdin then stdinOf shell i
      else if fd = stdout then stdoutOf shell cmds.length redirect i else shell.file fd := by
  obtain ⟨inside, ran⟩ := (child_fds forked).mp owner
  have opens : i + 1 < cmds.length ∨ redirect = none ∨ calls.openFile = true := by
    by_contra fails
    simp only [not_or, Bool.not_eq_true] at fails
    rw [setUp_fails succeed opened piped inside fails.1 fails.2.1 fails.2.2] at ran
    cases ran
  obtain ⟨fds', ran', file⟩ := setUp_file succeed opened piped inside opens
  cases ran.symm.trans ran'
  exact ⟨inside, file⟩

theorem child_started {i : Nat} (inside : i < cmds.length)
    (opens : i + 1 < cmds.length ∨ redirect = none ∨ calls.openFile = true) :
    (procs.fds (.child i)).isSome := by
  obtain ⟨fds, ran, -⟩ := setUp_file succeed opened piped inside opens
  rw [(child_fds forked).mpr ⟨inside, ran⟩]
  rfl

end Children

theorem launchPipeline_forked {calls : Calls} (succeed : calls.Succeed) {cmds : List Command}
    (nonempty : cmds ≠ []) (redirect : Redirect) (shell : Table (OpenFile F)) :
    ∃ procs t pipefds, launchPipeline calls cmds redirect shell = .launched procs ∧
      Piped shell t pipefds (cmds.length - 1) ∧
      (∀ i, procs.children[i]? = cmds[i]?.map fun cmd =>
        forkedChild calls cmds.length redirect pipefds i cmd t) ∧
      procs.children.length = cmds.length ∧ ∀ fd, procs.shell.file fd = shell.file fd := by
  have positive : 0 < cmds.length := List.length_pos_iff.mpr nonempty
  obtain ⟨t, pipefds, created, piped⟩ :=
    createPipes_piped succeed.pipe (cmds.length - 1) (Piped.initial shell)
  rw [Nat.zero_add] at piped
  let procs : Pipeline F :=
    { shell := t.closeAll pipefds
      children := cmds.zipIdx.map fun (cmd, k) =>
        forkedChild calls cmds.length redirect pipefds k cmd t }
  refine ⟨procs, t, pipefds, ?_, piped, fun i => ?_, by simp [procs], fun fd => ?_⟩
  · unfold launchPipeline
    rw [if_neg (Nat.ne_of_gt positive), created]
    dsimp only
    rw [forkAll_ok succeed]
    rfl
  · simp only [procs, List.getElem?_map, List.getElem?_zipIdx, Option.map_map, Nat.zero_add]
    rfl
  · rw [Table.closeAll_file]
    split
    · next own => exact (piped.fresh fd own).symm
    · next other => exact piped.kept fd other

theorem launchPipeline_plumbed {calls : Calls} (succeed : calls.Succeed) {cmds : List Command}
    (nonempty : cmds ≠ []) (redirect : Redirect) {shell : Table F}
    (standard : ∀ fd < 3, (shell.file fd).isSome) :
    ∃ procs, launchPipeline calls cmds redirect (shell.map .other) = .launched procs ∧
      procs.Plumbed shell cmds redirect calls.openFile := by
  have positive : 0 < cmds.length := List.length_pos_iff.mpr nonempty
  have opened : ∀ fd < 3, ((shell.map (OpenFile.other (F := F))).file fd).isSome := by
    intro fd low
    rw [Table.map, Option.isSome_map]
    exact standard fd low
  obtain ⟨procs, t, pipefds, launched, piped, forked, length, restored⟩ :=
    launchPipeline_forked succeed nonempty redirect (shell.map .other)
  have tables : procs.Tables (shell.map .other) cmds.length redirect :=
    ⟨restored, child_table forked succeed opened piped⟩
  refine ⟨procs, launched, length, ?_, ?_, ?_, ?_, restored, ?_, ?_⟩
  · intro i cmd there opens
    have inside := (List.getElem?_eq_some_iff.mp there).1
    obtain ⟨fds, ran, -⟩ := setUp_file succeed opened piped inside opens
    exact ⟨fds, by rw [forked, there, Option.map_some, forkedChild, ran]⟩
  · intro out fails
    have last : cmds.length - 1 < cmds.length := by omega
    rw [forked, List.getElem?_eq_getElem last, Option.map_some, forkedChild,
      setUp_fails succeed opened piped last (by omega) out fails]
  · intro j middle p fd
    exact holds_write tables middle
      (child_started forked succeed opened piped (by omega) (Or.inl middle)) p fd
  · intro j _ p fd
    exact holds_read tables p fd
  · intro fds owner
    rw [(tables.child 0 fds owner).2, if_pos rfl, stdinOf, if_neg (Nat.lt_irrefl 0)]
    rfl
  · intro fds owner
    rw [(tables.child _ fds owner).2, if_neg (by decide), if_pos rfl, stdoutOf, if_neg (by omega)]
    rfl

end Launched

def terminal : Table Nat where
  file := fun fd => if fd < 3 then some fd else none
  limit := 3
  closed := fun _ beyond => if_neg (Nat.not_lt.mpr beyond)

def allSucceed : Calls := ⟨fun _ => true, fun _ => true, fun _ => true, fun _ => true, true⟩

def threeCommands : List Command := [⟨[97], []⟩, ⟨[98], []⟩, ⟨[99], []⟩]

theorem launchPipeline_plumbed_three : ∃ procs,
    launchPipeline allSucceed threeCommands (some (.fileNew, [111])) (terminal.map .other) =
      .launched procs ∧ procs.Plumbed terminal threeCommands (some (.fileNew, [111])) true :=
  launchPipeline_plumbed
    ⟨fun _ => rfl, fun _ => rfl, fun _ => rfl, fun _ => rfl⟩ (by decide) _ (by decide)

end SystemProg.Shell
