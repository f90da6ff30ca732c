import Mathlib.Data.List.Nodup
import SystemProg.Shell.Plumbing

set_option autoImplicit false

-- The descriptors of the shell itself on every way out of `run_pipeline`, with a record of the pipe
-- ends that the call opens and of the descriptors that it closes.

namespace SystemProg.Shell

structure Ledger (F : Type) where
  table : Table (OpenFile F)
  opened : List Nat
  closed : List Nat

section Source

variable {F : Type}

def Ledger.pipe (l : Ledger F) (i : Nat) : (Nat × Nat) × Ledger F :=
  let (fds, t) := openPipe i l.table
  (fds, { table := t, opened := l.opened ++ [fds.1, fds.2], closed := l.closed })

def Ledger.close (l : Ledger F) (fd : Nat) : Ledger F :=
  { table := l.table.close fd, opened := l.opened, closed := l.closed ++ [fd] }

def Ledger.closeAll (l : Ledger F) (fds : List Nat) : Ledger F := fds.foldl Ledger.close l

def pipeCalls (calls : Calls) : Nat → Nat → Ledger F → List Nat →
    Except (Ledger F) (Ledger F × List Nat)
  | 0, _, l, pipefds => .ok (l, pipefds)
  | count + 1, i, l, pipefds =>
      if calls.pipe i then
        let (fds, l) := l.pipe i
        pipeCalls calls count (i + 1) l (pipefds ++ [fds.1, fds.2])
      else .error l

def forkCalls (calls : Calls) (pipefds : List Nat) : Nat → Nat → Ledger F →
    Except (Ledger F) (Ledger F)
  | 0, _, l => .ok l
  | count + 1, i, l =>
      if calls.fork i then forkCalls calls pipefds count (i + 1) l
      else .error (l.closeAll pipefds)

-- The shell's part of `run_pipeline` with `n` commands; waiting leaves the descriptors alone.
def shellCalls (calls : Calls) (n : Nat) (l : Ledger F) : Ledger F :=
  if n = 0 then l
  else
    match pipeCalls calls (n - 1) 0 l [] with
    | .error l => l
    | .ok (l, pipefds) =>
        match forkCalls calls pipefds n 0 l with
        | .error l => l
        | .ok l => l.closeAll pipefds

def Ledger.start (shell : Table (OpenFile F)) : Ledger F :=
  { table := shell, opened := [], closed := [] }

structure Ledger.Balanced (l : Ledger F) (shell : Table (OpenFile F)) : Prop where
  restored : ∀ fd, l.table.file fd = shell.file fd
  once : ∀ fd ∈ l.opened, l.closed.count fd = 1
  own : ∀ fd ∈ l.closed, fd ∈ l.opened

def Launch.shell : Launch F → Table (OpenFile F)
  | .returned _ procs | .launched procs => procs.shell

end Source

section Same

variable {F : Type}

@[simp] theorem Ledger.closeAll_table (l : Ledger F) (fds : List Nat) :
    (l.closeAll fds).table = l.table.closeAll fds := by
  induction fds generalizing l with
  | nil => rfl
  | cons fd rest ih => exact ih (l.close fd)

theorem pipeCalls_table (calls : Calls) (count i : Nat) (l : Ledger F) (pipefds : List Nat) :
    createPipes calls count i l.table pipefds =
      match pipeCalls calls count i l pipefds with
      | .error l => .error l.table
      | .ok (l, pipefds) => .ok (l.table, pipefds) := by
  induction count generalizing i l pipefds with
  | zero => rfl
  | succ count ih =>
      rw [createPipes, pipeCalls]
      split
      · exact ih (i + 1) (l.pipe i).2 _
      · rfl

theorem forkCalls_table (calls : Calls) (n : Nat) (redirect : Redirect) (pipefds : List Nat)
    (i : Nat) (cmds : List Command) (l : Ledger F) (procs : Pipeline F)
    (same : procs.shell = l.table) :
    match forkAll calls n redirect pipefds i cmds procs with
    | .error procs => ∃ l', forkCalls calls pipefds cmds.length i l = .error l' ∧
        procs.shell = l'.table
    | .ok procs => forkCalls calls pipefds cmds.length i l = .ok l ∧ procs.shell = l.table := by
  induction cmds generalizing i procs with
  | nil => exact ⟨rfl, same⟩
  | cons cmd rest ih =>
      rw [forkAll, List.length_cons, forkCalls]
      by_cases forks : calls.fork i
      · rw [if_pos forks, if_pos forks]
        exact ih (i + 1) _ same
      · rw [if_neg forks, if_neg forks]
        exact ⟨_, rfl, by rw [Ledger.closeAll_table, ← same]⟩

theorem shellCalls_table (calls : Calls) (cmds : List Command) (redirect : Redirect)
    (shell : Table (OpenFile F)) :
    (launchPipeline calls cmds redirect shell).shell =
      (shellCalls calls cmds.length (.start shell)).table := by
  rw [launchPipeline, shellCalls]
  split
  · rfl
  · have same := pipeCalls_table calls (cmds.length - 1) 0 (.start shell) []
    rw [Ledger.start] at same ⊢
    rw [same]
    cases pipeCalls calls (cmds.length - 1) 0 { table := shell, opened := [], closed := [] } [] with
    | error l => rfl
    | ok piped =>
        obtain ⟨l, pipefds⟩ := piped
        dsimp only
        have forked := forkCalls_table calls cmds.length redirect pipefds 0 cmds l ⟨l.table, []⟩ rfl
        cases ran : forkAll calls cmds.length redirect pipefds 0 cmds ⟨l.table, []⟩ with
        | error procs =>
            rw [ran] at forked
            obtain ⟨l', ran', same'⟩ := forked
            rw [ran']
            exact same'
        | ok procs =>
            rw [ran] at forked
            obtain ⟨ran', same'⟩ := forked
            rw [ran']
            dsimp only [Launch.shell]
            rw [same', Ledger.closeAll_table]

end Same

section Balance

variable {F : Type} {shell : Table (OpenFile F)}

structure Ledger.Opens (l : Ledger F) (shell : Table (OpenFile F)) (pipefds : List Nat) : Prop where
  opened : l.opened = pipefds
  closed : l.closed = []
  distinct : pipefds.Nodup
  fresh : ∀ fd ∈ pipefds, shell.file fd = none
  inUse : ∀ fd ∈ pipefds, l.table.file fd ≠ none
  kept : ∀ fd, fd ∉ pipefds → l.table.file fd = shell.file fd

theorem Ledger.Opens.start (shell : Table (OpenFile F)) : (Ledger.start shell).Opens shell [] where
  opened := rfl
  closed := rfl
  distinct := List.nodup_nil
  fresh := fun _ inside => absurd inside List.not_mem_nil
  inUse := fun _ inside => absurd inside List.not_mem_nil
  kept := fun _ _ => rfl

theorem Ledger.Opens.pipe {l : Ledger F} {pipefds : List Nat} (opens : l.Opens shell pipefds)
    {i : Nat} {fds : Nat × Nat} {t : Table (OpenFile F)} (called : openPipe i l.table = (fds, t)) :
    (Ledger.mk t (l.opened ++ [fds.1, fds.2]) l.closed).Opens shell
      (pipefds ++ [fds.1, fds.2]) := by
  obtain ⟨readFree, writeFree, readEnd, writeEnd, others⟩ := openPipe_file i l.table called
  have free : ∀ fd, l.table.file fd = none → fd ∉ pipefds ∧ shell.file fd = none := by
    intro fd closed
    have outside : fd ∉ pipefds := fun own => opens.inUse fd own closed
    exact ⟨outside, by rw [← opens.kept fd outside, closed]⟩
  have apart : fds.1 ≠ fds.2 := by
    intro same
    rw [same, writeEnd] at readEnd
    cases readEnd
  have place : ∀ fd, fd ∈ pipefds ++ [fds.1, fds.2] ↔ fd ∈ pipefds ∨ fd = fds.1 ∨ fd = fds.2 := by
    simp
  refine ⟨by rw [opens.opened], opens.closed, ?_, ?_, ?_, ?_⟩
  · refine List.nodup_append.mpr ⟨opens.distinct, by simpa using apart, ?_⟩
    intro fd old fd' new
    have new : fd' = fds.1 ∨ fd' = fds.2 := by simpa using new
    rintro rfl
    rcases new with rfl | rfl
    · exact (free _ readFree).1 old
    · exact (free _ writeFree).1 old
  · intro fd inside
    rcases (place fd).mp inside with old | rfl | rfl
    · exact opens.fresh fd old
    · exact (free _ readFree).2
    · exact (free _ writeFree).2
  · intro fd inside
    change t.file fd ≠ none
    by_cases isRead : fd = fds.1
    · rw [isRead, readEnd]
      simp
    by_cases isWrite : fd = fds.2
    · rw [isWrite, writeEnd]
      simp
    rw [others fd isRead isWrite]
    rcases (place fd).mp inside with old | same | same
    · exact opens.inUse fd old
    · exact absurd same isRead
    · exact absurd same isWrite
  · intro fd outside
    rw [place, not_or, not_or] at outside
    exact (others fd outside.2.1 outside.2.2).trans (opens.kept fd outside.1)

-- The first call that fails leaves two descriptors open for each one before it.
theorem pipeCalls_opens (calls : Calls) (count : Nat) {i : Nat} {l : Ledger F} {pipefds : List Nat}
    (opens : l.Opens shell pipefds) :
    (∃ l' pipefds', pipeCalls calls count i l pipefds = .ok (l', pipefds') ∧
      l'.Opens shell pipefds' ∧ ∀ k < count, calls.pipe (i + k) = true) ∨
    ∃ l' pipefds' k, pipeCalls calls count i l pipefds = .error l' ∧ l'.Opens shell pipefds' ∧
      k < count ∧ calls.pipe (i + k) = false ∧ (∀ j < k, calls.pipe (i + j) = true) ∧
      pipefds'.length = pipefds.length + 2 * k := by
  induction count generalizing i l pipefds with
  | zero => exact Or.inl ⟨l, pipefds, rfl, opens, fun k before => absurd before (Nat.not_lt_zero k)⟩
  | succ count ih =>
      rw [pipeCalls]
      by_cases succeeds : calls.pipe i = true
      · rw [if_pos succeeds]
        have next := opens.pipe
          (show openPipe i l.table = ((openPipe i l.table).1, (openPipe i l.table).2) from rfl)
        have all : ∀ limit, (∀ j < limit, calls.pipe (i + 1 + j) = true) →
            ∀ j < limit + 1, calls.pipe (i + j) = true := by
          intro limit later j before
          cases j with
          | zero => exact succeeds
          | succ j =>
              rw [show i + (j + 1) = i + 1 + j by omega]
              exact later j (by omega)
        rcases ih next with ⟨l', pipefds', ran, opens', later⟩ |
          ⟨l', pipefds', k, ran, opens', before, fails, earlier, length⟩
        · exact Or.inl ⟨l', pipefds', ran, opens', all count later⟩
        · refine Or.inr ⟨l', pipefds', k + 1, ran, opens', by omega, ?_, all k earlier, ?_⟩
          · rw [show i + (k + 1) = i + 1 + k by omega]
            exact fails
          · rw [length, List.length_append, List.length_cons, List.length_singleton]
            omega
      · rw [if_neg succeeds]
        exact Or.inr ⟨l, pipefds, 0, rfl, opens, Nat.succ_pos count,
          Bool.not_eq_true _ ▸ succeeds, fun j before => absurd before (Nat.not_lt_zero j), rfl⟩

theorem Ledger.closeAll_closed (l : Ledger F) (fds : List Nat) :
    (l.closeAll fds).closed = l.closed ++ fds ∧ (l.closeAll fds).opened = l.opened := by
  induction fds generalizing l with
  | nil => exact ⟨(List.append_nil _).symm, rfl⟩
  | cons fd rest ih =>
      obtain ⟨closed, opened⟩ := ih (l.close fd)
      refine ⟨?_, opened⟩
      change ((l.close fd).closeAll rest).closed = _
      rw [closed, Ledger.close, List.append_assoc, List.cons_append, List.nil_append]

theorem Ledger.Opens.closeAll {l : Ledger F} {pipefds : List Nat} (opens : l.Opens shell pipefds) :
    (l.closeAll pipefds).Balanced shell := by
  obtain ⟨closed, opened⟩ := l.closeAll_closed pipefds
  rw [opens.closed, List.nil_append] at closed
  rw [opens.opened] at opened
  refine ⟨fun fd => ?_, fun fd inside => ?_, fun fd inside => ?_⟩
  · rw [Ledger.closeAll_table, Table.closeAll_file]
    split
    · next own => exact (opens.fresh fd own).symm
    · next other => exact opens.kept fd other
  · rw [opened] at inside
    rw [closed, List.count_eq_one_of_mem opens.distinct inside]
  · rw [closed] at inside
    rw [opened]
    exact inside

theorem forkCalls_closes (calls : Calls) (pipefds : List Nat) (count i : Nat) (l : Ledger F) :
    forkCalls calls pipefds count i l = .ok l ∨
      forkCalls calls pipefds count i l = .error (l.closeAll pipefds) := by
  induction count generalizing i with
  | zero => exact Or.inl rfl
  | succ count ih =>
      rw [forkCalls]
      split
      · exact ih (i + 1)
      · exact Or.inr rfl

theorem runPipeline_closes_iff (calls : Calls) (cmds : List Command) (redirect : Redirect)
    (shell : Table (OpenFile F)) :
    ((∀ fd, (launchPipeline calls cmds redirect shell).shell.file fd = shell.file fd) ∧
        (shellCalls calls cmds.length (.start shell)).Balanced shell) ↔
      (∀ i, i + 1 < cmds.length → calls.pipe i = true) ∨ calls.pipe 0 = false := by
  have balanced : ((∀ fd, (launchPipeline calls cmds redirect shell).shell.file fd =
      shell.file fd) ∧ (shellCalls calls cmds.length (.start shell)).Balanced shell) ↔
        (shellCalls calls cmds.length (.start shell)).Balanced shell := by
    rw [shellCalls_table]
    exact and_iff_right_of_imp fun balanced => balanced.restored
  rw [balanced, shellCalls]
  have untouched : (Ledger.start shell).Balanced shell :=
    (Ledger.Opens.start shell).closeAll
  split
  · next none => exact iff_of_true untouched (Or.inl fun i inside => by omega)
  rcases pipeCalls_opens calls (cmds.length - 1) (i := 0) (Ledger.Opens.start shell) with
    ⟨l, pipefds, ran, opens, all⟩ | ⟨l, pipefds, k, ran, opens, before, fails, earlier, length⟩
  · rw [ran]
    refine iff_of_true ?_ (Or.inl fun i inside => ?_)
    · dsimp only
      rcases forkCalls_closes calls pipefds cmds.length 0 l with forked | forked <;>
        rw [forked] <;> exact opens.closeAll
    · rw [← Nat.zero_add i]
      exact all i (by omega)
  · rw [ran]
    rw [Nat.zero_add] at fails
    cases k with
    | zero =>
        have empty : pipefds = [] := List.length_eq_zero_iff.mp length
        subst empty
        exact iff_of_true opens.closeAll (Or.inr fails)
    | succ k =>
        refine iff_of_false (fun balanced => ?_) ?_
        · obtain ⟨fd, inside⟩ := List.exists_mem_of_length_pos (l := pipefds) (by
            rw [length]
            omega)
          have once := balanced.once fd (opens.opened ▸ inside)
          rw [opens.closed] at once
          cases once
        · rintro (all | first)
          · rw [all (k + 1) (by omega)] at fails
            cases fails
          · have succeeded := earlier 0 (Nat.succ_pos k)
            rw [Nat.zero_add, first] at succeeded
            cases succeeded

end Balance

def secondPipeFails : Calls := { allSucceed with pipe := fun i => i = 0 }

theorem runPipeline_leaks :
    ¬((∀ fd, (launchPipeline secondPipeFails threeCommands none
          (terminal.map .other)).shell.file fd = (terminal.map .other).file fd) ∧
      (shellCalls secondPipeFails threeCommands.length
          (.start (terminal.map .other))).Balanced (terminal.map .other)) := by
  intro balanced
  have left : (launchPipeline secondPipeFails threeCommands none
      (terminal.map .other)).shell.file 3 = some (.pipeRead 0) := by decide
  have before : (terminal.map (OpenFile.other (F := Nat))).file 3 = none := by decide
  rw [balanced.1 3, before] at left
  cases left

end SystemProg.Shell
