import Mathlib.Data.List.Nodup
import SystemProg.Utils.HeapHelp

set_option autoImplicit false

-- A record is in the map, in the free pool, or in the part of the current batch that has not been
-- used yet.

namespace SystemProg.Utils

namespace HeapHelp

def Chain (record : Address → Allocation) : Option Address → List Address → Prop
  | start, [] => start = none
  | start, a :: rest => start = some a ∧ Chain record (record a).next rest

def Used (s : HeapHelp) (a : Address) : Prop := a.batch < s.batches ∧ a.index < s.used a.batch

def Unused (s : HeapHelp) (a : Address) : Prop :=
  s.allocBatch = some a.batch ∧ s.used a.batch ≤ a.index ∧ a.index < allocationBatchSize

def Mapped (s : HeapHelp) (a : Address) : Prop := ∃ ptr, s.allocations ptr = some a

-- The records of the pool are distinct and not in the map, the map holds no record twice, and these
-- are all that have been handed out.
structure Sound (s : HeapHelp) (pool : List Address) : Prop where
  chain : Chain s.record s.allocPool pool
  distinct : pool.Nodup
  apart : ∀ a, s.Mapped a → a ∉ pool
  single : ∀ p q a, s.allocations p = some a → s.allocations q = some a → p = q
  used : ∀ a, s.Used a ↔ s.Mapped a ∨ a ∈ pool
  current : ∀ b, s.allocBatch = some b → b < s.batches ∧ s.used b ≤ allocationBatchSize
  filled : ∀ p a, s.allocations p = some a → (s.record a).mem = p

theorem chain_congr {record record' : Address → Allocation} {start : Option Address}
    {pool : List Address} (same : ∀ a ∈ pool, (record' a).next = (record a).next)
    (chain : Chain record start pool) : Chain record' start pool := by
  induction pool generalizing start with
  | nil => exact chain
  | cons a rest ih =>
      obtain ⟨first, chain⟩ := chain
      refine ⟨first, ?_⟩
      rw [same a (List.mem_cons_self ..)]
      exact ih (fun b mem => same b (List.mem_cons_of_mem _ mem)) chain

theorem create_sound (backtraceOn : Bool) (memory : Address → Allocation) :
    (create backtraceOn memory).Sound [] where
  chain := rfl
  distinct := List.nodup_nil
  apart := fun _ _ => List.not_mem_nil
  single := nofun
  used := by
    intro a
    refine iff_of_false (fun used => Nat.not_lt_zero _ used.1) ?_
    rintro (⟨ptr, mapped⟩ | mem)
    · cases mapped
    · cases mem
  current := nofun
  filled := nofun

-- The record comes from the pool, or it is the first unused one of a batch.
inductive Takes (s : HeapHelp) (a : Address) (next : HeapHelp) : Prop
  | pooled (first : s.allocPool = some a) (pool : next.allocPool = (s.record a).next)
      (batch : next.allocBatch = s.allocBatch) (batches : next.batches = s.batches)
      (used : next.used = s.used)
  | batch (empty : s.allocPool = none) (pool : next.allocPool = none)
      (current : s.allocBatch = some a.batch) (batch : next.allocBatch = s.allocBatch)
      (batches : next.batches = s.batches) (index : a.index = s.used a.batch)
      (room : a.index < allocationBatchSize)
      (used : next.used = Function.update s.used a.batch (a.index + 1))
  | fresh (empty : s.allocPool = none) (pool : next.allocPool = none)
      (full : ∀ b, s.allocBatch = some b → s.used b = allocationBatchSize)
      (named : a.batch = s.batches) (batch : next.allocBatch = some a.batch)
      (batches : next.batches = s.batches + 1) (index : a.index = 0)
      (used : next.used = Function.update s.used a.batch 1)

structure Traces (s : HeapHelp) (ptr : Pointer) (size : UInt64) (a : Address) (next : HeapHelp) :
    Prop where
  absent : s.allocations ptr = none
  takes : s.Takes a next
  allocations : next.allocations = Function.update s.allocations ptr (some a)
  count : next.allocCount = s.allocCount + 1
  backtrace : next.backtraceOn = s.backtraceOn
  mem : (next.record a).mem = ptr
  size : (next.record a).size = size
  links : (next.record a).next = (s.record a).next
  others : ∀ b, b ≠ a → next.record b = s.record b

theorem takeRecord_takes {s middle : HeapHelp} {memory : Bool} {a : Address}
    (taken : s.takeRecord memory = .ok (a, middle)) : s.Takes a middle ∧
      middle.allocations = s.allocations ∧ middle.allocCount = s.allocCount ∧
        middle.backtraceOn = s.backtraceOn ∧ middle.record = s.record := by
  unfold takeRecord at taken
  split at taken
  · next first =>
      cases taken
      exact ⟨.pooled first rfl rfl rfl rfl, rfl, rfl, rfl, rfl⟩
  next empty =>
  have fresh (full : ∀ b, s.allocBatch = some b → s.used b = allocationBatchSize)
      (made : (s.newBatch memory).map (fun r =>
        ({ batch := r.1, index := r.2.used r.1 }, r.2.setUsed r.1 (r.2.used r.1 + 1))) =
          .ok (a, middle)) : s.Takes a middle ∧
      middle.allocations = s.allocations ∧ middle.allocCount = s.allocCount ∧
        middle.backtraceOn = s.backtraceOn ∧ middle.record = s.record := by
    unfold newBatch at made
    split at made
    · cases made
      refine ⟨.fresh empty empty full rfl rfl rfl (Function.update_self ..) ?_, rfl, rfl, rfl, rfl⟩
      simp [setUsed]
    · cases made
  unfold currentBatch at taken
  split at taken
  · next none => exact fresh (fun b current => by rw [none] at current; cases current) taken
  next b current =>
  split at taken
  · next full =>
      refine fresh (fun b' same => ?_) taken
      rw [current] at same
      cases same
      exact full
  split at taken
  · next room =>
      cases taken
      exact ⟨.batch empty empty current rfl rfl rfl room rfl, rfl, rfl, rfl, rfl⟩
  · cases taken

theorem recordTrace_same (s : HeapHelp) (a : Address) (depth : Int) :
    (s.recordTrace a depth).allocations = s.allocations ∧
      (s.recordTrace a depth).allocPool = s.allocPool ∧
      (s.recordTrace a depth).allocBatch = s.allocBatch ∧
      (s.recordTrace a depth).allocCount = s.allocCount ∧
      (s.recordTrace a depth).backtraceOn = s.backtraceOn ∧
      (s.recordTrace a depth).used = s.used ∧ (s.recordTrace a depth).batches = s.batches := by
  unfold recordTrace
  split <;> exact ⟨rfl, rfl, rfl, rfl, rfl, rfl, rfl⟩

theorem recordTrace_record (s : HeapHelp) (a b : Address) (depth : Int) :
    (s.recordTrace a depth).record b =
      { s.record b with traceSize := if s.backtraceOn ∧ b = a then depth else (s.record b).traceSize } := by
  unfold recordTrace
  by_cases on : s.backtraceOn <;> by_cases same : b = a <;>
    simp [on, same, setRecord]

theorem Takes.congr {s next next' : HeapHelp} {a : Address} (takes : s.Takes a next)
    (pool : next'.allocPool = next.allocPool) (batch : next'.allocBatch = next.allocBatch)
    (used : next'.used = next.used) (batches : next'.batches = next.batches) : s.Takes a next' := by
  cases takes with
  | pooled first pool' batch' batches' used' =>
      exact .pooled first (pool.trans pool') (batch.trans batch') (batches.trans batches')
        (used.trans used')
  | batch empty pool' current batch' batches' index room used' =>
      exact .batch empty (pool.trans pool') current (batch.trans batch') (batches.trans batches')
        index room (used.trans used')
  | fresh empty pool' full named batch' batches' index used' =>
      exact .fresh empty (pool.trans pool') full named (batch.trans batch')
        (batches.trans batches') index (used.trans used')

theorem trace_traces {s next : HeapHelp} {ptr : Pointer} {size : UInt64} {memory : Bool}
    {depth : Int} (traced : s.trace ptr size memory depth = .ok next) :
    ∃ a, s.Traces ptr size a next := by
  unfold trace at traced
  split at traced
  · cases traced
  next a middle taken =>
  obtain ⟨takes, allocations, count, backtrace, record⟩ := takeRecord_takes taken
  dsimp only at traced
  split at traced
  · cases traced
  next absent =>
  split at traced
  · obtain rfl := Except.ok.inj traced
    obtain ⟨allocations', pool', batch', count', backtrace', used', batches'⟩ := recordTrace_same
      { middle.setRecord a { middle.record a with mem := ptr, size := size } with
        allocations := Function.update middle.allocations ptr (some a)
        allocCount := middle.allocCount + 1 } a depth
    have look (b : Address) := recordTrace_record
      { middle.setRecord a { middle.record a with mem := ptr, size := size } with
        allocations := Function.update middle.allocations ptr (some a)
        allocCount := middle.allocCount + 1 } a b depth
    refine ⟨a, ?_, takes.congr pool' batch' used' batches', ?_, ?_, ?_, ?_, ?_, ?_, ?_⟩
    · rw [← allocations]
      exact Option.not_isSome_iff_eq_none.mp absent
    · rw [← allocations]
      exact allocations'
    · rw [← count]
      exact count'
    · rw [← backtrace]
      exact backtrace'
    · refine (congrArg Allocation.mem (look a)).trans ?_
      simp [setRecord]
    · refine (congrArg Allocation.size (look a)).trans ?_
      simp [setRecord]
    · refine (congrArg Allocation.next (look a)).trans ?_
      simp [setRecord, record]
    · intro b other
      refine (look b).trans ?_
      simp [setRecord, other, record]
  · cases traced

theorem trace_defined {s : HeapHelp} {pool : List Address} (sound : s.Sound pool) {ptr : Pointer}
    (absent : s.allocations ptr = none) (size : UInt64) {depth : Int} (positive : 0 ≤ depth)
    (on : s.backtraceOn = true) : ∃ next, s.trace ptr size true depth = .ok next := by
  have taken : ∃ a middle, s.takeRecord true = .ok (a, middle) := by
    unfold takeRecord currentBatch
    split
    · exact ⟨_, _, rfl⟩
    · split
      · exact ⟨_, _, rfl⟩
      · next b current =>
          have within := (sound.current b current).2
          split
          · exact ⟨_, _, rfl⟩
          · next room =>
              rw [if_pos (Nat.lt_of_le_of_ne within room)]
              exact ⟨_, _, rfl⟩
  obtain ⟨a, middle, taken⟩ := taken
  obtain ⟨-, allocations, -, backtrace, -⟩ := takeRecord_takes taken
  unfold trace
  rw [taken]
  dsimp only
  have missing : (middle.allocations ptr).isSome = false := by
    rw [allocations, absent]
    rfl
  rw [if_neg (by rw [Bool.not_eq_true]; exact missing), if_pos]
  · exact ⟨_, rfl⟩
  · rw [recordTrace_record]
    dsimp only
    rw [if_pos ⟨backtrace.trans on, rfl⟩]
    exact positive

theorem Sound.unused {s : HeapHelp} {pool : List Address} (sound : s.Sound pool) {a : Address}
    (behind : ¬s.Used a) : ¬s.Mapped a ∧ a ∉ pool :=
  ⟨fun mapped => behind ((sound.used a).mpr (Or.inl mapped)),
    fun mem => behind ((sound.used a).mpr (Or.inr mem))⟩

theorem Sound.poolEmpty {s : HeapHelp} {pool : List Address} (sound : s.Sound pool)
    (empty : s.allocPool = none) : pool = [] := by
  have chain := sound.chain
  cases pool with
  | nil => rfl
  | cons a rest =>
      rw [empty] at chain
      cases chain.1

def taken (s : HeapHelp) (batch : Nat) : Nat := if batch < s.batches then s.used batch else 0

theorem used_taken {s : HeapHelp} {a : Address} : s.Used a ↔ a.index < s.taken a.batch := by
  unfold Used taken
  split
  · next made => exact and_iff_right made
  · next unmade => exact iff_of_false (fun used => unmade used.1) (Nat.not_lt_zero _)

theorem used_next {s next : HeapHelp} {a : Address} (first : a.index = s.taken a.batch)
    (counts : ∀ b, next.taken b = if b = a.batch then a.index + 1 else s.taken b) (b : Address) :
    next.Used b ↔ b = a ∨ s.Used b := by
  rw [used_taken, used_taken, counts]
  by_cases same : b.batch = a.batch
  · rw [if_pos same, same, ← first, Nat.lt_succ_iff_lt_or_eq, or_comm]
    refine or_congr_left ⟨fun index => ?_, fun equal => by rw [equal]⟩
    obtain ⟨batch, index'⟩ := b
    cases same
    cases index
    rfl
  · rw [if_neg same, or_iff_right]
    rintro rfl
    exact same rfl

def Frees (s next : HeapHelp) (pool : List Address) (a : Address) : Prop :=
  ∃ rest, Chain s.record next.allocPool rest ∧ (a :: rest).Nodup ∧ ¬s.Mapped a ∧
    (∀ b ∈ rest, b ∈ pool) ∧ (∀ b, next.Used b ↔ b = a ∨ s.Mapped b ∨ b ∈ rest) ∧
    ∀ b, next.allocBatch = some b → b < next.batches ∧ next.used b ≤ allocationBatchSize

theorem Sound.takes_next {s next : HeapHelp} {pool : List Address} {a : Address}
    (sound : s.Sound pool) (empty : s.allocPool = none) (pool' : next.allocPool = none)
    (first : a.index = s.taken a.batch)
    (counts : ∀ b, next.taken b = if b = a.batch then a.index + 1 else s.taken b)
    (current : ∀ b, next.allocBatch = some b →
      b < next.batches ∧ next.used b ≤ allocationBatchSize) : s.Frees next pool a := by
  have behind : ¬s.Used a := by
    rw [used_taken, first]
    exact Nat.lt_irrefl _
  obtain rfl := sound.poolEmpty empty
  refine ⟨[], pool', List.nodup_singleton a, (sound.unused behind).1, fun _ => id, ?_, current⟩
  intro b
  rw [used_next first counts, sound.used]

theorem Takes.rest {s next : HeapHelp} {pool : List Address} {a : Address} (sound : s.Sound pool)
    (takes : s.Takes a next) : s.Frees next pool a := by
  cases takes with
  | pooled first pool' batch batches used =>
      have chain := sound.chain
      cases pool with
      | nil =>
          rw [first] at chain
          cases chain
      | cons c rest =>
          obtain ⟨same, chain⟩ := chain
          rw [first] at same
          cases same
          have free : ¬s.Mapped a := fun mapped => sound.apart a mapped (List.mem_cons_self ..)
          refine ⟨rest, pool' ▸ chain, sound.distinct, free, fun b => List.mem_cons_of_mem a,
            ?_, ?_⟩
          · intro b
            have before := sound.used b
            rw [List.mem_cons] at before
            rw [Used, used, batches]
            exact before.trans or_left_comm
          · rw [batch, used, batches]
            exact sound.current
  | batch empty pool' current batch batches index room used =>
      obtain ⟨made, -⟩ := sound.current _ current
      refine sound.takes_next empty pool' (by rw [taken, if_pos made, index]) ?_ ?_
      · intro b
        rw [taken, taken, batches, used, Function.update_apply]
        by_cases same : b = a.batch
        · rw [if_pos same, if_pos same, if_pos (same ▸ made)]
        · rw [if_neg same, if_neg same]
      · rw [batch, batches, used]
        intro b same
        rw [current] at same
        cases same
        rw [Function.update_self]
        exact ⟨made, room⟩
  | fresh empty pool' full named batch batches index used =>
      refine sound.takes_next empty pool' ?_ ?_ ?_
      · rw [taken, if_neg (Nat.not_lt.mpr (Nat.le_of_eq named.symm)), index]
      · intro b
        rw [taken, taken, batches, used, Function.update_apply, index, ← named]
        by_cases same : b = a.batch
        · rw [if_pos same, if_pos same, if_pos (same ▸ Nat.lt_succ_self _)]
        · rw [if_neg same, if_neg same]
          simp only [Nat.lt_succ_iff_lt_or_eq, or_iff_left same]
      · rw [batch, batches, used]
        rintro b ⟨⟩
        rw [Function.update_self, named]
        exact ⟨Nat.lt_succ_self _, by decide⟩

theorem Traces.sound {s next : HeapHelp} {pool : List Address} {ptr : Pointer} {size : UInt64}
    {a : Address} (sound : s.Sound pool) (traces : s.Traces ptr size a next) :
    ∃ rest, next.Sound rest := by
  obtain ⟨rest, chain, distinct, free, inside, used, current⟩ := traces.takes.rest sound
  obtain ⟨outside, distinct⟩ := List.nodup_cons.mp distinct
  have lookup (p : Pointer) : next.allocations p = if p = ptr then some a else s.allocations p := by
    rw [traces.allocations, Function.update_apply]
  have mapped (b : Address) : next.Mapped b ↔ b = a ∨ s.Mapped b := by
    constructor
    · rintro ⟨p, there⟩
      rw [lookup] at there
      split at there
      · exact Or.inl (Option.some.inj there).symm
      · exact Or.inr ⟨p, there⟩
    · rintro (rfl | ⟨p, there⟩)
      · exact ⟨ptr, (lookup ptr).trans (if_pos rfl)⟩
      · refine ⟨p, (lookup p).trans ?_⟩
        rw [if_neg, there]
        rintro rfl
        rw [traces.absent] at there
        cases there
  refine ⟨rest, chain_congr (fun b mem => ?_) chain, distinct, fun b there mem => ?_, ?_, ?_,
    current, fun p b there => ?_⟩
  · rw [traces.others b fun same => outside (same ▸ mem)]
  · rcases (mapped b).mp there with rfl | before
    · exact outside mem
    · exact sound.apart b before (inside b mem)
  · intro p q b first second
    rw [lookup] at first second
    split at first
    · next same =>
        split at second
        · next same' => rw [same, same']
        · cases first
          exact absurd ⟨q, second⟩ free
    · split at second
      · cases second
        exact absurd ⟨p, first⟩ free
      · exact sound.single p q b first second
  · intro b
    rw [used, mapped, or_assoc]
  · rw [lookup] at there
    split at there
    · next same =>
        cases there
        rw [same]
        exact traces.mem
    · rw [traces.others b]
      · exact sound.filled p b there
      · rintro rfl
        exact free ⟨p, there⟩

theorem untrace_sound {s next : HeapHelp} {pool : List Address} {ptr : Pointer}
    (sound : s.Sound pool) (untraced : s.untrace ptr = .ok next) :
    ∃ a, s.allocations ptr = some a ∧ next.Sound (a :: pool) := by
  unfold untrace at untraced
  split at untraced
  · cases untraced
  next a there =>
  cases untraced
  have outside := sound.apart a ⟨ptr, there⟩
  have links (b : Address) : (Function.update s.record a { s.record a with next := s.allocPool } b) =
      if b = a then { s.record a with next := s.allocPool } else s.record b :=
    Function.update_apply _ _ _ _
  have remaining (p : Pointer) (b : Address)
      (held : Function.update s.allocations ptr none p = some b) :
      p ≠ ptr ∧ s.allocations p = some b ∧ b ≠ a := by
    rw [Function.update_apply] at held
    split at held
    · cases held
    · next other =>
        refine ⟨other, held, ?_⟩
        rintro rfl
        exact other (sound.single p ptr b held there)
  refine ⟨a, there, ⟨rfl, ?_⟩, List.nodup_cons.mpr ⟨outside, sound.distinct⟩, ?_, ?_, ?_,
    sound.current, ?_⟩
  · change Chain (Function.update s.record a _) (Function.update s.record a _ a).next pool
    rw [Function.update_self]
    refine chain_congr (fun b mem => ?_) sound.chain
    have other : b ≠ a := fun same => outside (same ▸ mem)
    rw [links, if_neg other]
  · rintro b ⟨p, held⟩
    obtain ⟨-, before, other⟩ := remaining p b held
    rw [List.mem_cons, not_or]
    exact ⟨other, sound.apart b ⟨p, before⟩⟩
  · intro p q b first second
    exact sound.single p q b (remaining p b first).2.1 (remaining q b second).2.1
  · intro b
    refine (sound.used b).trans ⟨?_, ?_⟩
    · rintro (⟨p, held⟩ | mem)
      · by_cases same : p = ptr
        · rw [same, there] at held
          cases held
          exact Or.inr (List.mem_cons_self ..)
        · exact Or.inl ⟨p, (Function.update_of_ne same _ _).trans held⟩
      · exact Or.inr (List.mem_cons_of_mem _ mem)
    · rintro (⟨p, held⟩ | mem)
      · exact Or.inl ⟨p, (remaining p b held).2.1⟩
      · rcases List.mem_cons.mp mem with rfl | mem
        · exact Or.inl ⟨ptr, there⟩
        · exact Or.inr mem
  · intro p b held
    obtain ⟨-, before, other⟩ := remaining p b held
    change (Function.update s.record a _ b).mem = p
    rw [links, if_neg other]
    exact sound.filled p b before

end HeapHelp

end SystemProg.Utils
