import SystemProg.Utils.Records

set_option autoImplicit false

namespace SystemProg.Utils

namespace HeapHelp

def Action.track (sizes : Pointer → Option UInt64) : Action → Pointer → Option UInt64
  | .trace ptr size _ _ => Function.update sizes ptr (some size)
  | .untrace ptr => Function.update sizes ptr none

-- The pointers that the calls have traced and not untraced since, with the size given last.
def tracked (actions : List Action) : Pointer → Option UInt64 :=
  actions.foldl Action.track fun _ => none

def Action.traces : Action → Bool
  | .trace _ _ _ _ => true
  | .untrace _ => false

def traceCount (actions : List Action) : Nat := actions.countP Action.traces

def sizeOf (s : HeapHelp) (ptr : Pointer) : Option UInt64 :=
  (s.allocations ptr).map fun a => (s.record a).size

theorem step_call {s next : HeapHelp} {action : Action} (taken : s.step action = some next) :
    s.call action = .ok next := by
  rw [step] at taken
  cases called : s.call action with
  | error report =>
      rw [called] at taken
      cases taken
  | ok result =>
      rw [called] at taken
      exact congrArg Except.ok (Option.some.inj taken)

theorem Traces.sizeOf {s next : HeapHelp} {ptr : Pointer} {size : UInt64} {a : Address}
    {pool : List Address} (sound : s.Sound pool) (traces : s.Traces ptr size a next) :
    next.sizeOf = Function.update s.sizeOf ptr (some size) := by
  obtain ⟨rest, -, -, free, -⟩ := traces.takes.rest sound
  funext p
  rw [HeapHelp.sizeOf, traces.allocations, Function.update_apply, Function.update_apply]
  split
  · rw [Option.map_some, traces.size]
  · rw [HeapHelp.sizeOf]
    cases there : s.allocations p with
    | none => rfl
    | some b =>
        have other : b ≠ a := by
          rintro rfl
          exact free ⟨p, there⟩
        rw [Option.map_some, Option.map_some, traces.others b other]

theorem untrace_sizeOf {s next : HeapHelp} {ptr : Pointer} (untraced : s.untrace ptr = .ok next) :
    next.sizeOf = Function.update s.sizeOf ptr none ∧ next.allocCount = s.allocCount := by
  unfold untrace at untraced
  split at untraced
  · cases untraced
  next a there =>
  cases untraced
  refine ⟨?_, rfl⟩
  funext p
  change (Function.update s.allocations ptr none p).map
    (fun b => (Function.update s.record a { s.record a with next := s.allocPool } b).size) = _
  rw [Function.update_apply, Function.update_apply]
  split
  · rfl
  · rw [HeapHelp.sizeOf]
    cases s.allocations p with
    | none => rfl
    | some b =>
        rw [Option.map_some, Option.map_some, Function.update_apply]
        split
        · next same => rw [same]
        · rfl

theorem step_tracks {s next : HeapHelp} {pool : List Address} (sound : s.Sound pool)
    {action : Action} (taken : s.step action = some next) :
    (∃ rest, next.Sound rest) ∧ next.sizeOf = action.track s.sizeOf ∧
      next.allocCount = s.allocCount + UInt64.ofNat (traceCount [action]) := by
  have called := step_call taken
  cases action with
  | trace ptr size memory depth =>
      obtain ⟨a, traces⟩ := trace_traces called
      exact ⟨traces.sound sound, traces.sizeOf sound, traces.count⟩
  | untrace ptr =>
      obtain ⟨a, -, after⟩ := untrace_sound sound called
      obtain ⟨sizes, count⟩ := untrace_sizeOf called
      exact ⟨⟨a :: pool, after⟩, sizes, count.trans (UInt64.add_zero _).symm⟩

theorem run_tracks {s t : HeapHelp} {pool : List Address} (sound : s.Sound pool)
    {actions : List Action} (run : Run.exec step s actions = some t) :
    (∃ rest, t.Sound rest) ∧ t.sizeOf = actions.foldl Action.track s.sizeOf ∧
      t.allocCount = s.allocCount + UInt64.ofNat (traceCount actions) := by
  induction actions generalizing s pool with
  | nil =>
      cases run
      exact ⟨⟨pool, sound⟩, rfl, (UInt64.add_zero _).symm⟩
  | cons action rest ih =>
      obtain ⟨next, taken, run⟩ := (Run.exec_cons _ _ _ _).mp run
      obtain ⟨⟨later, sound⟩, sizes, count⟩ := step_tracks sound taken
      obtain ⟨after, sizes', count'⟩ := ih sound run
      refine ⟨after, ?_, ?_⟩
      · rw [sizes', sizes, List.foldl_cons]
      · have both : traceCount ([action] ++ rest) = traceCount [action] + traceCount rest :=
          List.countP_append
        rw [count', count, UInt64.add_assoc, ← UInt64.ofNat_add, ← both]
        rfl

theorem records_accounted {backtraceOn : Bool} {memory : Address → Allocation}
    {actions : List Action} {s : HeapHelp}
    (run : Run.exec step (create backtraceOn memory) actions = some s) :
    s.sizeOf = tracked actions ∧
    (∃ pool, Chain s.record s.allocPool pool ∧ pool.Nodup ∧
      (∀ p q a, s.allocations p = some a → s.allocations q = some a → p = q) ∧
      ∀ a, ¬(s.Mapped a ∧ a ∈ pool) ∧ ¬(s.Mapped a ∧ s.Unused a) ∧ ¬(a ∈ pool ∧ s.Unused a)) ∧
    s.allocCount = UInt64.ofNat (traceCount actions) ∧
    (∀ ptr, tracked actions ptr = none → s.untrace ptr = .error .freeingUnknown) ∧
    (∀ ptr, tracked actions ptr ≠ none → ∃ next, s.untrace ptr = .ok next) ∧
    ∀ ptr size depth, tracked actions ptr = none → 0 ≤ depth → s.backtraceOn = true →
      ∃ next, s.trace ptr size true depth = .ok next := by
  obtain ⟨⟨pool, sound⟩, sizes, count⟩ := run_tracks (create_sound backtraceOn memory) run
  have known : s.sizeOf = tracked actions := sizes
  have absent (ptr : Pointer) (untraced : tracked actions ptr = none) :
      s.allocations ptr = none := by
    rw [← known] at untraced
    exact Option.map_eq_none_iff.mp untraced
  refine ⟨known, ⟨pool, sound.chain, sound.distinct, sound.single, fun a => ⟨?_, ?_, ?_⟩⟩,
    count.trans (UInt64.zero_add _), ?_, ?_, ?_⟩
  · rintro ⟨mapped, mem⟩
    exact sound.apart a mapped mem
  · rintro ⟨mapped, -, behind, -⟩
    exact Nat.not_lt.mpr behind ((sound.used a).mpr (Or.inl mapped)).2
  · rintro ⟨mem, -, behind, -⟩
    exact Nat.not_lt.mpr behind ((sound.used a).mpr (Or.inr mem)).2
  · intro ptr untraced
    rw [untrace, absent ptr untraced]
  · intro ptr traced
    rw [← known, HeapHelp.sizeOf, Ne, Option.map_eq_none_iff] at traced
    obtain ⟨a, there⟩ := Option.ne_none_iff_exists'.mp traced
    rw [untrace, there]
    exact ⟨_, rfl⟩
  · intro ptr size depth untraced positive on
    exact trace_defined sound (absent ptr untraced) size positive on

def anyMemory : Address → Allocation := fun _ =>
  { traceSize := -1, mem := 7, size := 7, next := some { batch := 7, index := 7 } }

def reusingRun : List Action :=
  [.trace 1 16 true 3, .trace 2 32 true 3, .untrace 1, .trace 3 8 true 3]

def reused : HeapHelp := (Run.exec step (create true anyMemory) reusingRun).get (by decide)

theorem records_accounted_reused :
    reused.allocations 3 = some { batch := 0, index := 0 } ∧ reused.sizeOf = tracked reusingRun ∧
      tracked reusingRun 2 = some 32 ∧ reused.allocCount = 3 ∧
      reused.untrace 1 = .error .freeingUnknown := by
  obtain ⟨sizes, -, count, reported, -⟩ :=
    records_accounted (show Run.exec step (create true anyMemory) reusingRun = some reused from
      (Option.some_get _).symm)
  exact ⟨rfl, sizes, rfl, count, reported 1 rfl⟩

def churningRun : Nat → List Action
  | 0 => []
  | n + 1 => churningRun n ++ [.trace 1 16 true 3, .untrace 1]

theorem churningRun_tracks (n : Nat) :
    tracked (churningRun n) 1 = none ∧ traceCount (churningRun n) = n := by
  induction n with
  | zero => exact ⟨rfl, rfl⟩
  | succ n ih =>
      constructor
      · rw [tracked, churningRun, List.foldl_append]
        change Function.update (Function.update (tracked (churningRun n)) 1 (some 16)) 1 none 1 = none
        rw [Function.update_self]
      · rw [traceCount, churningRun, List.countP_append]
        exact congrArg (· + 1) ih.2

theorem churningRun_ends (n : Nat) :
    ∃ s, Run.exec step (create true anyMemory) (churningRun n) = some s ∧
      s.backtraceOn = true := by
  induction n with
  | zero => exact ⟨_, rfl, rfl⟩
  | succ n ih =>
      obtain ⟨s, run, on⟩ := ih
      obtain ⟨⟨pool, sound⟩, sizes, -⟩ := run_tracks (create_sound true anyMemory) run
      have known : s.sizeOf = tracked (churningRun n) := sizes
      have absent : s.allocations 1 = none := by
        have untraced := (churningRun_tracks n).1
        rw [← known] at untraced
        exact Option.map_eq_none_iff.mp untraced
      obtain ⟨middle, traced⟩ := trace_defined sound absent 16 (show (0 : Int) ≤ 3 by decide) on
      obtain ⟨a, traces⟩ := trace_traces traced
      have there : middle.allocations 1 = some a := by
        rw [traces.allocations]
        exact Function.update_self ..
      refine ⟨{ middle.setRecord a { middle.record a with next := middle.allocPool } with
        allocPool := some a, allocations := Function.update middle.allocations 1 none }, ?_,
        traces.backtrace.trans on⟩
      refine (Run.exec_append _ _ _ _).mpr ⟨s, run, (Run.exec_cons _ _ _ _).mpr ⟨middle, ?_, ?_⟩⟩
      · rw [step, call, traced]
        rfl
      · refine (Run.exec_cons _ _ _ _).mpr ⟨_, ?_, rfl⟩
        rw [step, call, untrace, there]
        rfl

theorem alloc_count_wraps :
    (∃ s, Run.exec step (create true anyMemory) (churningRun (2 ^ 64)) = some s ∧
      s.allocCount = 0) ∧
    ¬ ∀ actions s, Run.exec step (create true anyMemory) actions = some s →
      s.allocCount.toNat = traceCount actions := by
  obtain ⟨s, run, -⟩ := churningRun_ends (2 ^ 64)
  obtain ⟨-, -, count⟩ := run_tracks (create_sound true anyMemory) run
  have traces := (churningRun_tracks (2 ^ 64)).2
  rw [traces] at count
  have zero : s.allocCount = 0 := count
  refine ⟨⟨s, run, zero⟩, fun holds => ?_⟩
  have same := holds _ s run
  rw [traces, zero] at same
  exact absurd same (by decide)

end HeapHelp

end SystemProg.Utils
