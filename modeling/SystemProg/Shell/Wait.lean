import Mathlib.Data.List.Induction
import SystemProg.Lib.Run

set_option autoImplicit false

-- The end of `run_pipeline` in the foreground, with the processes of the pipeline and the other
-- children of the shell, which end in any order. The second loop waits for any child at all, so the
-- call is also held up by background jobs.

namespace SystemProg.Shell

inductive WaitStatus where
  | exited (code : Nat)
  | signaled (signal : Nat)
deriving DecidableEq, Repr

def WaitStatus.value : WaitStatus → Int
  | .exited code => code
  | .signaled signal => 128 + signal

structure Unreaped where
  pid : Nat
  status : Option WaitStatus
deriving DecidableEq, Repr

-- The shell is in the loop over `last_pid`, in the loop over any child, or has returned.
inductive Phase where
  | last
  | rest
  | returned
deriving DecidableEq, Repr

structure Waiting where
  children : List Unreaped
  phase : Phase
  lastStatus : Int
deriving DecidableEq, Repr

-- A child ends, or the `waitpid` in which the shell stands returns: with a child, with `ECHILD` or
-- with `EINTR`.
inductive WaitEvent where
  | ends (pid : Nat) (status : WaitStatus)
  | reaps (pid : Nat) (status : WaitStatus)
  | noChild
  | interrupted
deriving DecidableEq, Repr

def Unreaped.finish (pid : Nat) (status : WaitStatus) (c : Unreaped) : Unreaped :=
  if c = ⟨pid, none⟩ then ⟨pid, some status⟩ else c

def Waiting.reap (lastPid pid : Nat) (status : WaitStatus) (w : Waiting) : Option Waiting :=
  if ⟨pid, some status⟩ ∈ w.children then
    let children := w.children.erase ⟨pid, some status⟩
    match w.phase with
    | .last =>
        if pid = lastPid then
          some { children := children, phase := .rest, lastStatus := status.value }
        else none
    | .rest => some { w with children := children }
    | .returned => none
  else none

def Waiting.step (lastPid : Nat) (w : Waiting) : WaitEvent → Option Waiting
  | .ends pid status =>
      if ⟨pid, none⟩ ∈ w.children then
        some { w with children := w.children.map (Unreaped.finish pid status) }
      else none
  | .reaps pid status => w.reap lastPid pid status
  | .noChild =>
      match w.phase with
      | .last => if lastPid ∈ w.children.map Unreaped.pid then none else some { w with phase := .rest }
      | .rest => if w.children = [] then some { w with phase := .returned } else none
      | .returned => none
  | .interrupted => if w.phase = .returned then none else some w

def Waiting.start (own : List Nat) (others : List Unreaped) : Waiting :=
  { children := own.map (⟨·, none⟩) ++ others, phase := .last, lastStatus := 0 }

-- A return of `waitpid` that takes the shell on.
def WaitEvent.isCall : WaitEvent → Bool
  | .reaps _ _ | .noChild => true
  | .ends _ _ | .interrupted => false

inductive WillReturn (lastPid : Nat) : Waiting → Prop where
  | returned {w : Waiting} (atReturn : w.phase = .returned) : WillReturn lastPid w
  | calls {w : Waiting} (possible : ∃ e, e.isCall ∧ (w.step lastPid e).isSome)
      (later : ∀ e w', e.isCall → w.step lastPid e = some w' → WillReturn lastPid w') :
      WillReturn lastPid w

def HasEnded (events : List WaitEvent) (pid : Nat) : Prop := ∃ status, .ends pid status ∈ events

-- What the call promises in the state after these events: it returns as soon as its own processes
-- have ended, not before, with all of them reaped and the status of the last one.
structure WaitsForOwn (own : List Nat) (lastPid : Nat) (events : List WaitEvent) (w : Waiting) :
    Prop where
  ended : w.phase = .returned → ∀ pid ∈ own, HasEnded events pid
  reaped : w.phase = .returned → ∀ c ∈ w.children, c.pid ∉ own
  result : w.phase = .returned → ∀ status, .ends lastPid status ∈ events →
    w.lastStatus = status.value
  returns : (∀ pid ∈ own, HasEnded events pid) → WillReturn lastPid w

def NoneLeftBehind (own : List Nat) (others : List Unreaped) (events : List WaitEvent) : Prop :=
  ∀ front, front <+: events → (∀ pid ∈ own, HasEnded front pid) →
    ∀ c ∈ others, c.status = none → HasEnded front c.pid

theorem hasEnded_snoc (front : List WaitEvent) (e : WaitEvent) (pid : Nat) :
    HasEnded (front ++ [e]) pid ↔ HasEnded front pid ∨ ∃ status, e = .ends pid status := by
  constructor
  · rintro ⟨status, there⟩
    rcases List.mem_append.mp there with old | new
    · exact Or.inl ⟨status, old⟩
    · exact Or.inr ⟨status, (List.mem_singleton.mp new).symm⟩
  · rintro (⟨status, old⟩ | ⟨status, rfl⟩)
    · exact ⟨status, List.mem_append_left _ old⟩
    · exact ⟨status, List.mem_append_right _ List.mem_cons_self⟩

theorem Waiting.step_call {lastPid : Nat} {w w' : Waiting} {e : WaitEvent} (call : e.isCall)
    (taken : w.step lastPid e = some w') :
    (∃ pid status, e = .reaps pid status ∧ ⟨pid, some status⟩ ∈ w.children ∧
      w'.children = w.children.erase ⟨pid, some status⟩ ∧ w'.phase = .rest ∧
        (w.phase = .last ∧ pid = lastPid ∧ w'.lastStatus = status.value ∨
          w.phase = .rest ∧ w'.lastStatus = w.lastStatus)) ∨
      e = .noChild ∧ w'.children = w.children ∧ w'.lastStatus = w.lastStatus ∧
        (w.phase = .last ∧ lastPid ∉ w.children.map Unreaped.pid ∨
          w.phase = .rest ∧ w.children = [] ∧ w'.phase = .returned) := by
  cases e with
  | ends | interrupted => cases call
  | reaps pid status =>
      refine Or.inl ⟨pid, status, rfl, ?_⟩
      change w.reap lastPid pid status = some w' at taken
      unfold Waiting.reap at taken
      split at taken
      · next there =>
          refine ⟨there, ?_⟩
          cases phase : w.phase with
          | last =>
              simp only [phase] at taken
              split at taken
              · next same =>
                  cases taken
                  exact ⟨rfl, rfl, Or.inl ⟨rfl, same, rfl⟩⟩
              · cases taken
          | rest =>
              simp only [phase] at taken
              cases taken
              exact ⟨rfl, rfl, Or.inr ⟨rfl, rfl⟩⟩
          | returned =>
              simp only [phase] at taken
              cases taken
      · cases taken
  | noChild =>
      refine Or.inr ⟨rfl, ?_⟩
      cases phase : w.phase with
      | last =>
          simp only [Waiting.step, phase] at taken
          split at taken
          · cases taken
          · next gone =>
              cases taken
              exact ⟨rfl, rfl, Or.inl ⟨rfl, gone⟩⟩
      | rest =>
          simp only [Waiting.step, phase] at taken
          split at taken
          · next empty =>
              cases taken
              exact ⟨rfl, rfl, Or.inr ⟨rfl, empty, rfl⟩⟩
          · cases taken
      | returned =>
          simp only [Waiting.step, phase] at taken
          cases taken

theorem mem_finish {children : List Unreaped} {pid : Nat} {status : WaitStatus} {c : Unreaped} :
    c ∈ children.map (Unreaped.finish pid status) ↔
      c ∈ children ∧ c ≠ ⟨pid, none⟩ ∨ ⟨pid, none⟩ ∈ children ∧ c = ⟨pid, some status⟩ := by
  rw [List.mem_map]
  constructor
  · rintro ⟨old, there, rfl⟩
    unfold Unreaped.finish
    split
    · next alive => exact Or.inr ⟨alive ▸ there, rfl⟩
    · next other => exact Or.inl ⟨there, other⟩
  · rintro (⟨there, other⟩ | ⟨there, rfl⟩)
    · exact ⟨c, there, if_neg other⟩
    · exact ⟨_, there, if_pos rfl⟩

structure Waiting.Sound (own : List Nat) (others : List Unreaped) (lastPid : Nat)
    (front : List WaitEvent) (w : Waiting) : Prop where
  alive : ∀ pid, ⟨pid, none⟩ ∈ w.children ↔ (pid ∈ own ∨ ⟨pid, none⟩ ∈ others) ∧ ¬HasEnded front pid
  ended : ∀ pid status, ⟨pid, some status⟩ ∈ w.children → pid ∈ own → .ends pid status ∈ front
  once : ∀ pid status status', .ends pid status ∈ front → .ends pid status' ∈ front →
    status = status'
  waits : w.phase = .last → ∃ status, ⟨lastPid, status⟩ ∈ w.children
  result : w.phase ≠ .last → ∃ status, .ends lastPid status ∈ front ∧ w.lastStatus = status.value
  atReturn : w.phase = .returned → w.children = []

section Runs

variable {own : List Nat} {others : List Unreaped} {lastPid : Nat}

theorem Waiting.Sound.start (last : lastPid ∈ own) (apart : ∀ c ∈ others, c.pid ∉ own) :
    (Waiting.start own others).Sound own others lastPid [] where
  alive pid := by simp [Waiting.start, HasEnded]
  ended pid status there mine := by
    rcases List.mem_append.mp there with new | old
    · simp at new
    · exact absurd mine (apart _ old)
  once pid status status' there := absurd there List.not_mem_nil
  waits _ := ⟨none, List.mem_append_left _ (List.mem_map.mpr ⟨lastPid, last, rfl⟩)⟩
  result other := absurd rfl other
  atReturn returned := by cases returned

theorem Waiting.Sound.finish {front : List WaitEvent} {w : Waiting}
    (sound : w.Sound own others lastPid front) {pid : Nat} (status : WaitStatus)
    (alive : ⟨pid, none⟩ ∈ w.children) :
    Waiting.Sound own others lastPid (front ++ [.ends pid status])
      { w with children := w.children.map (Unreaped.finish pid status) } where
  alive p := by
    rw [mem_finish, sound.alive p, hasEnded_snoc]
    simp
    tauto
  ended p status' there mine := by
    rcases mem_finish.mp there with ⟨old, -⟩ | ⟨-, same⟩
    · exact List.mem_append_left _ (sound.ended p status' old mine)
    · cases same
      simp
  once p one two first second := by
    have fresh := ((sound.alive pid).mp alive).2
    simp only [List.mem_append, List.mem_singleton] at first second
    rcases first with first | first <;> rcases second with second | second
    · exact sound.once p one two first second
    · cases second
      exact absurd ⟨one, first⟩ fresh
    · cases first
      exact absurd ⟨two, second⟩ fresh
    · cases first
      cases second
      rfl
  waits phase := by
    obtain ⟨old, there⟩ := sound.waits phase
    by_cases same : Unreaped.mk lastPid old = ⟨pid, none⟩
    · cases same
      exact ⟨some status, mem_finish.mpr (Or.inr ⟨there, rfl⟩)⟩
    · exact ⟨old, mem_finish.mpr (Or.inl ⟨there, same⟩)⟩
  result phase := by
    obtain ⟨st, there, value⟩ := sound.result phase
    exact ⟨st, List.mem_append_left _ there, value⟩
  atReturn phase := by
    rw [sound.atReturn phase] at alive
    cases alive

theorem Waiting.Sound.mono {front front' : List WaitEvent} {w : Waiting}
    (sound : w.Sound own others lastPid front)
    (same : ∀ pid status, .ends pid status ∈ front' ↔ .ends pid status ∈ front) :
    w.Sound own others lastPid front' where
  alive pid := by
    rw [sound.alive, HasEnded, HasEnded]
    simp only [same]
  ended pid status there mine := (same _ _).mpr (sound.ended pid status there mine)
  once pid status status' first second :=
    sound.once pid status status' ((same _ _).mp first) ((same _ _).mp second)
  waits := sound.waits
  result phase := by
    obtain ⟨status, there, value⟩ := sound.result phase
    exact ⟨status, (same _ _).mpr there, value⟩
  atReturn := sound.atReturn

theorem Waiting.Sound.call (mine : lastPid ∈ own) {front : List WaitEvent} {w w' : Waiting}
    (sound : w.Sound own others lastPid front) {e : WaitEvent} (call : e.isCall)
    (taken : w.step lastPid e = some w') : w'.Sound own others lastPid front := by
  rcases Waiting.step_call call taken with
    ⟨pid, status, rfl, there, children, phase, source⟩ | ⟨rfl, children, value, source⟩
  · refine ⟨fun p => ?_, fun p st left => ?_, sound.once, ?_, fun _ => ?_, ?_⟩
    · rw [children, List.mem_erase_of_ne (by simp), sound.alive]
    · rw [children] at left
      exact sound.ended p st (List.mem_of_mem_erase left)
    · intro last
      rw [phase] at last
      cases last
    · rcases source with ⟨-, rfl, value⟩ | ⟨rest, value⟩
      · exact ⟨status, sound.ended _ _ there mine, value⟩
      · rw [value]
        exact sound.result (by rw [rest]; simp)
    · intro returned
      rw [phase] at returned
      cases returned
  · rcases source with ⟨last, gone⟩ | ⟨rest, empty, returned⟩
    · obtain ⟨status, there⟩ := sound.waits last
      exact absurd (List.mem_map.mpr ⟨_, there, rfl⟩) gone
    · refine ⟨fun p => ?_, fun p st left => ?_, sound.once, ?_, fun _ => ?_, fun _ => ?_⟩
      · rw [children, sound.alive]
      · rw [children, empty] at left
        cases left
      · intro last
        rw [returned] at last
        cases last
      · rw [value]
        exact sound.result (by rw [rest]; simp)
      · rw [children, empty]

theorem Waiting.Sound.step (mine : lastPid ∈ own) {front : List WaitEvent} {w w' : Waiting}
    (sound : w.Sound own others lastPid front) {e : WaitEvent}
    (taken : w.step lastPid e = some w') : w'.Sound own others lastPid (front ++ [e]) := by
  cases e with
  | ends pid status =>
      simp only [Waiting.step] at taken
      split at taken
      · next alive =>
          cases taken
          exact sound.finish status alive
      · cases taken
  | reaps | noChild => exact (sound.call mine rfl taken).mono (by simp)
  | interrupted =>
      simp only [Waiting.step] at taken
      split at taken
      · cases taken
      · cases taken
        exact sound.mono (by simp)

theorem Waiting.Sound.reached (last : lastPid ∈ own) (apart : ∀ c ∈ others, c.pid ∉ own)
    {events : List WaitEvent} {w : Waiting}
    (run : Run.exec (Waiting.step lastPid) (.start own others) events = some w) :
    w.Sound own others lastPid events := by
  induction events using List.reverseRecOn generalizing w with
  | nil =>
      cases run
      exact .start last apart
  | append_singleton front e ih =>
      obtain ⟨middle, before, taken⟩ := (Run.exec_append _ _ _ _).mp run
      obtain ⟨next, taken, same⟩ := (Run.exec_cons _ _ _ _).mp taken
      cases same
      exact (ih before).step last taken

-- With no child alive each call of `waitpid` returns, and the last one finds no child.
theorem willReturn_of_ended (mine : lastPid ∈ own) {front : List WaitEvent} {w : Waiting}
    (sound : w.Sound own others lastPid front) (ended : ∀ pid, ⟨pid, none⟩ ∉ w.children) :
    WillReturn lastPid w := by
  induction size : w.children.length using Nat.strongRecOn generalizing w with
  | _ size ih =>
  have done : ∀ c ∈ w.children, ∃ status, c = ⟨c.pid, some status⟩ := by
    intro c there
    obtain ⟨pid, status⟩ := c
    cases status with
    | none => exact absurd there (ended pid)
    | some status => exact ⟨status, rfl⟩
  have possible : w.phase ≠ .returned → ∃ e, e.isCall ∧ (w.step lastPid e).isSome := by
    intro waiting
    cases phase : w.phase with
    | last =>
        obtain ⟨status, there⟩ := sound.waits phase
        obtain ⟨status, same⟩ := done _ there
        rw [same] at there
        exact ⟨.reaps lastPid status, rfl, by
          rw [Waiting.step, Waiting.reap, if_pos there]
          simp [phase]⟩
    | rest =>
        cases children : w.children with
        | nil =>
            exact ⟨.noChild, rfl, by simp [Waiting.step, phase, children]⟩
        | cons c others =>
            have there : c ∈ w.children := by rw [children]; exact List.mem_cons_self
            obtain ⟨status, same⟩ := done c there
            rw [same] at there
            exact ⟨.reaps c.pid status, rfl, by
              rw [Waiting.step, Waiting.reap, if_pos there]
              simp [phase]⟩
    | returned => exact absurd phase waiting
  by_cases atReturn : w.phase = .returned
  · exact .returned atReturn
  · refine .calls (possible atReturn) fun e w' call taken => ?_
    rcases Waiting.step_call call taken with
      ⟨pid, status, -, there, children, -, -⟩ | ⟨-, -, -, ⟨last, gone⟩ | ⟨-, -, returned⟩⟩
    · have shorter := List.length_erase_of_mem there
      have positive := List.length_pos_of_mem there
      refine ih w'.children.length (by rw [children]; omega) (sound.call mine call taken) ?_ rfl
      intro p alive
      rw [children] at alive
      exact ended p (List.mem_of_mem_erase alive)
    · obtain ⟨status, there⟩ := sound.waits last
      exact absurd (List.mem_map.mpr ⟨_, there, rfl⟩) gone
    · exact .returned returned

theorem ended_of_willReturn (mine : lastPid ∈ own) {front : List WaitEvent} {w : Waiting}
    (sound : w.Sound own others lastPid front) (returns : WillReturn lastPid w) (pid : Nat) :
    ⟨pid, none⟩ ∉ w.children := by
  induction returns with
  | returned atReturn =>
      rw [sound.atReturn atReturn]
      exact List.not_mem_nil
  | calls possible later ih =>
      intro alive
      obtain ⟨e, call, some⟩ := possible
      obtain ⟨w', taken⟩ := Option.isSome_iff_exists.mp some
      refine ih e w' call taken (sound.call mine call taken) ?_
      rcases Waiting.step_call call taken with
        ⟨pid', status, -, -, children, -, -⟩ | ⟨-, children, -, -⟩
      · rw [children]
        exact (List.mem_erase_of_ne (by simp)).mpr alive
      · rw [children]
        exact alive

theorem runPipeline_waits_iff (isLast : own.getLast? = some lastPid)
    (apart : ∀ c ∈ others, c.pid ∉ own) {events : List WaitEvent} {last : Waiting}
    (run : Run.exec (Waiting.step lastPid) (.start own others) events = some last) :
    (∀ front w, front <+: events →
      Run.exec (Waiting.step lastPid) (.start own others) front = some w →
        WaitsForOwn own lastPid front w) ↔ NoneLeftBehind own others events := by
  have mine := List.mem_of_getLast? isLast
  constructor
  · rintro waits front ⟨rest, rfl⟩ ended c there running
    obtain ⟨w, before, -⟩ := (Run.exec_append _ _ _ _).mp run
    have sound := Waiting.Sound.reached mine apart before
    have returns := (waits front w ⟨rest, rfl⟩ before).returns ended
    by_contra alive
    refine ended_of_willReturn mine sound returns c.pid ((sound.alive c.pid).mpr ⟨Or.inr ?_, alive⟩)
    rw [← running]
    exact there
  · intro none front w before reached
    have sound := Waiting.Sound.reached mine apart reached
    refine ⟨fun atReturn pid member => ?_, fun atReturn => ?_, fun atReturn status ended => ?_,
      fun ended => ?_⟩
    · by_contra alive
      have there := (sound.alive pid).mpr ⟨Or.inl member, alive⟩
      rw [sound.atReturn atReturn] at there
      cases there
    · rw [sound.atReturn atReturn]
      exact fun c there => absurd there List.not_mem_nil
    · obtain ⟨status', ended', value⟩ := sound.result (by rw [atReturn]; simp)
      rw [value, sound.once lastPid status status' ended ended']
    · refine willReturn_of_ended mine sound fun pid alive => ?_
      obtain ⟨known, running⟩ := (sound.alive pid).mp alive
      rcases known with member | member
      · exact running (ended pid member)
      · exact running (none front before ended _ member rfl)

end Runs

def waitsRun : List WaitEvent :=
  [.ends 9 (.exited 0), .ends 1 (.exited 3), .ends 2 (.signaled 15), .reaps 2 (.signaled 15),
    .interrupted, .reaps 9 (.exited 0), .reaps 1 (.exited 3), .noChild]

theorem runPipeline_waits_two : ∃ last,
    Run.exec (Waiting.step 2) (.start [1, 2] [⟨9, none⟩]) waitsRun = some last ∧
      last.phase = .returned ∧
      ((∀ front w, front <+: waitsRun →
        Run.exec (Waiting.step 2) (.start [1, 2] [⟨9, none⟩]) front = some w →
          WaitsForOwn [1, 2] 2 front w) ↔ NoneLeftBehind [1, 2] [⟨9, none⟩] waitsRun) :=
  ⟨_, rfl, rfl, runPipeline_waits_iff rfl (by decide) rfl⟩

theorem runPipeline_waits_background :
    Run.exec (Waiting.step 1) (.start [1] [⟨2, none⟩]) [.ends 1 (.exited 0), .reaps 1 (.exited 0)] =
        some { children := [⟨2, none⟩], phase := .rest, lastStatus := 0 } ∧
      ¬WaitsForOwn [1] 1 [.ends 1 (.exited 0), .reaps 1 (.exited 0)]
        { children := [⟨2, none⟩], phase := .rest, lastStatus := 0 } := by
  have run : Run.exec (Waiting.step 1) (.start [1] [⟨2, none⟩])
      [.ends 1 (.exited 0), .reaps 1 (.exited 0)] =
        some { children := [⟨2, none⟩], phase := .rest, lastStatus := 0 } := by decide
  refine ⟨run, fun waits => ?_⟩
  have sound := Waiting.Sound.reached (by decide) (by decide) run
  have ended : ∀ pid ∈ [1], HasEnded [.ends 1 (.exited 0), .reaps 1 (.exited 0)] pid := by simp [HasEnded]
  exact ended_of_willReturn (by decide) sound (waits.returns ended) 2 List.mem_cons_self

end SystemProg.Shell
