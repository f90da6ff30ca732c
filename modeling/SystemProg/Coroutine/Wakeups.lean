import SystemProg.Coroutine.Turns

set_option autoImplicit false

-- Each message in a channel from whose queue receivers still wait, and each free place from whose
-- queue senders still wait, has a coroutine that has been shifted from that queue and not resumed.

namespace SystemProg.Coroutine

def Channel.pending (chan : Channel) : Side → Nat
  | .send => chan.sizeLimit - chan.data.length
  | .recv => chan.data.length

namespace Machine

-- The coroutine is in `wakeup_queue_suspend_this` and its entry has been shifted.
def Shifted (s : Machine) (c : CoroId) (id : ChanId) (side : Side) : Prop :=
  (∃ state call, s.Waits c state call id ∧ call.side = side) ∧
    ∀ chan, s.chans id = some chan → c ∉ chan.queue side

def Covered (s : Machine) (slack : ChanId → Side → Nat) : Prop :=
  ∀ id chan side, s.chans id = some chan → chan.closed = false → chan.queue side ≠ [] →
    ∃ woken : List CoroId, woken.Nodup ∧ (∀ c ∈ woken, s.Shifted c id side) ∧
      chan.pending side ≤ woken.length + slack id side

-- A coroutine that is about to try again is itself missing from the count.
def allowance (s : Machine) (call : BusCall) (id : ChanId) (side : Side) : Nat :=
  if s.findChannel call.bus call.channel = some (some id) ∧ side = call.side then 1 else 0

def Persist (s next : Machine) : Prop :=
  ∀ c state call id, s.Waits c state call id → ∃ state', next.Waits c state' call id

theorem Shifted.persist {s next : Machine} {c : CoroId} {id : ChanId} {side : Side}
    (shifted : s.Shifted c id side) (persist : s.Persist next)
    (outside : ∀ chan, next.chans id = some chan → c ∉ chan.queue side) :
    next.Shifted c id side := by
  obtain ⟨⟨state, call, waits, same⟩, -⟩ := shifted
  obtain ⟨state', waits'⟩ := persist c state call id waits
  exact ⟨⟨state', call, waits', same⟩, outside⟩

theorem persist_quiet {s next : Machine} (quiet : s.engine.Quiet next.engine) : s.Persist next := by
  intro c state call id waits
  obtain ⟨state', waits', -⟩ := quiet.forth c state _ waits
  exact ⟨state', waits'⟩

theorem persist_leaves {s next : Machine} (valid : s.engine.Valid) {c : CoroId} {state : CoroState}
    {ctx : Context Place} (leaves : s.engine.Leaves next.engine c state ctx) : s.Persist next := by
  intro d state' call id waits
  refine ⟨state', (leaves.changes.others d ?_).trans waits⟩
  rintro rfl
  rw [Waits, valid.currentLook leaves.current] at waits
  cases waits

theorem covered_same {s next : Machine} {slack : ChanId → Side → Nat} (covered : s.Covered slack)
    (persist : s.Persist next) {id : ChanId} {chan : Channel} {side : Side}
    (there : s.chans id = some chan) (there' : next.chans id = some chan)
    (opened : chan.closed = false) (nonempty : chan.queue side ≠ []) :
    ∃ woken : List CoroId, woken.Nodup ∧ (∀ c ∈ woken, next.Shifted c id side) ∧
      chan.pending side ≤ woken.length + slack id side := by
  obtain ⟨woken, distinct, shifted, enough⟩ := covered id chan side there opened nonempty
  refine ⟨woken, distinct, fun c mem => (shifted c mem).persist persist ?_, enough⟩
  intro chan' again
  rw [there'] at again
  cases again
  exact (shifted c mem).2 chan there

theorem covered_chans {s next : Machine} {slack : ChanId → Side → Nat} (covered : s.Covered slack)
    (persist : s.Persist next) (chans : next.chans = s.chans) : next.Covered slack := by
  intro id chan side there opened nonempty
  rw [chans] at there
  exact covered_same covered persist there (by rw [chans]; exact there) opened nonempty

theorem transfer_pending {chan : Channel} {call : BusCall} (ready : chan.ready call.side = true)
    (who : Option CoroRef) (id : ChanId) :
    (transfer who call id chan).1.pending call.side + 1 = chan.pending call.side ∧
      (transfer who call id chan).1.pending call.side.other ≤ chan.pending call.side.other + 1 := by
  obtain ⟨op, blocking, bus, channel⟩ := call
  cases op with
  | send data =>
      simp only [BusCall.side, BusOp.side, Channel.ready, decide_eq_true_eq] at ready
      simp only [BusCall.side, BusOp.side, transfer, Channel.pending, Side.other,
        List.length_append, List.length_singleton]
      omega
  | recv =>
      simp only [BusCall.side, BusOp.side, Channel.ready, decide_eq_true_eq] at ready
      have positive := List.length_pos_iff.mpr ready
      simp only [BusCall.side, BusOp.side, transfer, Channel.pending, Side.other, List.length_tail]
      omega

theorem notReady_pending {chan : Channel} {side : Side} (notReady : chan.ready side = false) :
    chan.pending side = 0 := by
  cases side with
  | send =>
      simp only [Channel.ready, decide_eq_false_iff_not, Nat.not_lt] at notReady
      exact Nat.sub_eq_zero_of_le notReady
  | recv =>
      simp only [Channel.ready, decide_eq_false_iff_not, not_not] at notReady
      simp [Channel.pending, notReady]

theorem setQueue_pending (chan : Channel) (side side' : Side) (queue : List CoroId) :
    (chan.setQueue side queue).pending side' = chan.pending side' := by
  cases side' <;> rfl

theorem other_ne (side : Side) : side.other ≠ side := by
  cases side <;> simp [Side.other]

theorem eq_or_other (side side' : Side) : side' = side ∨ side' = side.other := by
  cases side <;> cases side' <;> simp [Side.other]

theorem Moved.covered {s next : Machine} {call : BusCall} {id : ChanId} {chan : Channel}
    (sound : s.Sound) (covered : s.Covered (s.allowance call)) (moves : s.Moved next call id chan) :
    next.Covered fun _ _ => 0 := by
  obtain ⟨rest, tail, chans⟩ := moves.queue
  obtain ⟨queue, closed, -⟩ := transfer_queue s.engine.thisCoro call id chan
  obtain ⟨own, opposite⟩ := transfer_pending moves.ready s.engine.thisCoro id
  have persist := persist_quiet moves.quiet
  have lookup (id' : ChanId) : next.chans id' =
      if id' = id then some ((transfer s.engine.thisCoro call id chan).1.setQueue
        call.side.other rest) else s.chans id' := by
    rw [chans]
    exact setChan_chans s id _ id'
  intro id' chan' side there' opened nonempty
  by_cases same : id' = id
  · subst same
    have moved := there'
    rw [lookup, if_pos rfl] at there'
    cases there'
    have opened' : chan.closed = false := closed.symm.trans opened
    rw [setQueue_pending]
    rw [setQueue_queue, queue] at nonempty
    rcases eq_or_other call.side side with rfl | rfl
    · -- The place or message that was taken pays for the allowance.
      rw [if_neg (Ne.symm (other_ne _))] at nonempty
      obtain ⟨woken, distinct, shifted, enough⟩ := covered id' chan _ moves.there opened' nonempty
      rw [allowance, if_pos ⟨moves.found, rfl⟩] at enough
      refine ⟨woken, distinct, fun c mem => (shifted c mem).persist persist ?_, by omega⟩
      intro chan'' again
      rw [moved] at again
      cases again
      rw [setQueue_queue, if_neg (Ne.symm (other_ne _)), queue]
      exact (shifted c mem).2 chan moves.there
    · -- The new one is for the coroutine that has just been shifted.
      rw [if_pos rfl, ← tail] at nonempty
      cases entries : chan.queue call.side.other with
      | nil => simp [entries] at nonempty
      | cons first others =>
          rw [entries, List.tail_cons] at tail
          obtain ⟨woken, distinct, shifted, enough⟩ :=
            covered id' chan call.side.other moves.there opened' (by simp [entries])
          rw [allowance, if_neg fun both => other_ne _ both.2] at enough
          have noDup := sound.distinct id' chan call.side.other moves.there
          rw [entries, List.nodup_cons] at noDup
          have outside (c : CoroId) (isOut : c ∉ others) (chan'' : Channel)
              (again : next.chans id' = some chan'') : c ∉ chan''.queue call.side.other := by
            rw [moved] at again
            cases again
            rw [setQueue_queue, if_pos rfl, ← tail]
            exact isOut
          have notIn (c : CoroId) (mem : c ∈ woken) : c ∉ first :: others := by
            rw [← entries]
            exact (shifted c mem).2 chan moves.there
          refine ⟨first :: woken, ?_, ?_, ?_⟩
          · rw [List.nodup_cons]
            exact ⟨fun mem => notIn first mem (by simp), distinct⟩
          · intro c mem
            rcases List.mem_cons.mp mem with rfl | mem
            · obtain ⟨state, call', waits, same⟩ :=
                sound.queued id' chan call.side.other c moves.there (by simp [entries])
              obtain ⟨state', waits'⟩ := persist c state call' id' waits
              exact ⟨⟨state', call', waits', same⟩, outside c noDup.1⟩
            · exact (shifted c mem).persist persist
                (outside c fun isOther => notIn c mem (by simp [isOther]))
          · rw [List.length_cons]
            omega
  · have there := there'
    rw [lookup, if_neg same] at there
    obtain ⟨woken, distinct, shifted, enough⟩ :=
      covered_same covered persist there there' opened nonempty
    refine ⟨woken, distinct, shifted, ?_⟩
    rw [allowance, if_neg] at enough
    · exact enough
    · rintro ⟨found, -⟩
      rw [moves.found] at found
      exact same (Option.some.inj (Option.some.inj found)).symm

theorem Turned.covered {s next : Machine} {call : BusCall} (sound : s.Sound)
    (covered : s.Covered (s.allowance call)) (turned : s.Turned next call) :
    next.Covered fun _ _ => 0 := by
  have persistSame (code : ErrorCode) : s.Persist (s.refuse call code) :=
    fun c state call' id waits => ⟨state, waits⟩
  cases turned with
  | gone found same =>
      rw [same]
      intro id chan side there opened nonempty
      obtain ⟨woken, distinct, shifted, enough⟩ :=
        covered_same covered (persistSame .noChannel) there there opened nonempty
      refine ⟨woken, distinct, shifted, ?_⟩
      rw [allowance, if_neg (by simp [found])] at enough
      exact enough
  | wouldBlock id chan found there notReady trying same =>
      rw [same]
      intro id' chan' side there' opened nonempty
      obtain ⟨woken, distinct, shifted, enough⟩ :=
        covered_same covered (persistSame .wouldBlock) there' there' opened nonempty
      refine ⟨woken, distinct, shifted, ?_⟩
      unfold allowance at enough
      split at enough
      · next both =>
          obtain ⟨found', rfl⟩ := both
          rw [found] at found'
          cases found'
          rw [show s.chans id = _ from there'] at there
          cases there
          rw [notReady_pending notReady]
          exact Nat.zero_le _
      · exact enough
  | moved id chan moves => exact moves.covered sound covered
  | blocked id chan c blocks =>
      have persist := persist_leaves sound.engine blocks.leaves
      have lookup (id' : ChanId) : next.chans id' =
          if id' = id then some (chan.setQueue call.side (chan.queue call.side ++ [c]))
          else s.chans id' := by
        rw [blocks.chans]
        exact setChan_chans s id _ id'
      intro id' chan' side there' opened nonempty
      by_cases same : id' = id
      · subst same
        have moved := there'
        rw [lookup, if_pos rfl] at there'
        cases there'
        rw [setQueue_pending]
        rcases eq_or_other call.side side with rfl | rfl
        · -- It waits because there is nothing to take.
          refine ⟨[], List.nodup_nil, nofun, ?_⟩
          rw [notReady_pending blocks.notReady]
          exact Nat.zero_le _
        · rw [setQueue_queue, if_neg (other_ne _)] at nonempty
          obtain ⟨woken, distinct, shifted, enough⟩ :=
            covered id' chan _ blocks.there opened nonempty
          rw [allowance, if_neg fun both => other_ne _ both.2] at enough
          refine ⟨woken, distinct, fun d mem => (shifted d mem).persist persist ?_, enough⟩
          intro chan'' again
          rw [moved] at again
          cases again
          rw [setQueue_queue, if_neg (other_ne _)]
          exact (shifted d mem).2 chan blocks.there
      · have there := there'
        rw [lookup, if_neg same] at there
        obtain ⟨woken, distinct, shifted, enough⟩ :=
          covered_same covered persist there there' opened nonempty
        refine ⟨woken, distinct, shifted, ?_⟩
        rw [allowance, if_neg] at enough
        · exact enough
        · rintro ⟨found, -⟩
          rw [blocks.found] at found
          exact same (Option.some.inj (Option.some.inj found)).symm

theorem covered_allowance {s : Machine} (covered : s.Covered fun _ _ => 0) (call : BusCall) :
    s.Covered (s.allowance call) := by
  intro id chan side there opened nonempty
  obtain ⟨woken, distinct, shifted, enough⟩ := covered id chan side there opened nonempty
  exact ⟨woken, distinct, shifted, Nat.le_trans enough (Nat.add_le_add_left (Nat.zero_le _) _)⟩

theorem Idles.covered {s next : Machine} {slack : ChanId → Side → Nat} (covered : s.Covered slack)
    (idles : s.Idles next) : next.Covered slack :=
  covered_chans covered (persist_quiet idles.quiet) idles.chans

theorem Adds.covered {s next : Machine} {slack : ChanId → Side → Nat} (covered : s.Covered slack)
    (adds : s.Adds next) : next.Covered slack := by
  apply covered_chans covered _ adds.chans
  apply persist_quiet
  rw [adds.engine]
  exact Engine.Quiet.refl _

theorem Opens.covered {s next : Machine} {bus : BusId} {slot : Nat} {chan : Channel}
    {slack : ChanId → Side → Nat} (covered : s.Covered slack) (opens : s.Opens next bus slot chan) :
    next.Covered slack := by
  have persist : s.Persist next := by
    apply persist_quiet
    rw [opens.engine]
    exact Engine.Quiet.refl _
  intro id chan' side there' opened nonempty
  have there := there'
  rw [opens.chans, setChan_chans] at there
  split at there
  · cases there
    exact absurd (opens.empty.2.2.1 side) nonempty
  · exact covered_same covered persist there there' opened nonempty

theorem Shuts.covered {s next : Machine} {bus : Option BusId} {channel : Int} {id : ChanId}
    {chan : Channel} {woken : Engine Place} {c : CoroId} {slack : ChanId → Side → Nat}
    (covered : s.Covered slack) (shuts : s.Shuts next bus channel id chan woken c) :
    next.Covered slack := by
  have persist : s.Persist next := by
    intro d state call id' waits
    obtain ⟨state', waits', -⟩ := shuts.quiet.forth d state _ waits
    exact @persist_leaves { s with engine := woken } next shuts.wokenValid c .running _ shuts.leaves
      d state' call id' waits'
  intro id' chan' side there' opened nonempty
  have there := there'
  rw [shuts.chans, setChan_chans] at there
  split at there
  · cases there
    cases opened
  · exact covered_same covered persist there there' opened nonempty

theorem Deletes.covered {s next : Machine} {id : ChanId} {chan : Channel}
    {slack : ChanId → Side → Nat} (covered : s.Covered slack) (deletes : s.Deletes next id chan) :
    next.Covered slack := by
  have chans : next.chans = (s.setChan id { chan with freed := true }).chans := by
    rw [deletes.same]
  have persist : s.Persist next := by
    rw [deletes.same]
    exact fun c state call id' waits => ⟨state, waits⟩
  intro id' chan' side there' opened nonempty
  have there := there'
  rw [chans, setChan_chans] at there
  split at there
  · cases there
    exact absurd (deletes.closed.symm.trans opened) (by simp)
  · exact covered_same covered persist there there' opened nonempty

theorem Arrives.covered {s here : Machine} {c : CoroId} {ctx : Context Place}
    {slack : ChanId → Side → Nat} (sound : s.Sound) (covered : s.Covered fun _ _ => 0)
    (arrives : s.Arrives here c ctx)
    (allowed : ∀ call id, ctx = .frame (.waiting call id) →
      s.findChannel call.bus call.channel = some (some id) → 1 ≤ slack id call.side) :
    here.Covered slack := by
  have persist (d : CoroId) (other : d ≠ c) (state : CoroState) (call : BusCall) (id : ChanId)
      (waits : s.Waits d state call id) : here.Waits d state call id :=
    (arrives.lands.changes.others d other).trans waits
  intro id chan' side there' opened nonempty
  have there := there'
  rw [arrives.chans, Option.map_eq_some_iff] at there
  obtain ⟨chan, there, rfl⟩ := there
  have pending : (chan.without c).pending side = chan.pending side := by
    cases side <;> rfl
  have nonempty' : chan.queue side ≠ [] := by
    intro empty
    apply nonempty
    simp [Channel.without, empty]
  obtain ⟨woken, distinct, shifted, enough⟩ := covered id chan side there opened nonempty'
  rw [Nat.add_zero] at enough
  have stays (d : CoroId) (mem : d ∈ woken) (other : d ≠ c) : here.Shifted d id side := by
    obtain ⟨⟨state, call, waits, same⟩, outside⟩ := shifted d mem
    refine ⟨⟨state, call, persist d other state call id waits, same⟩, fun chan'' again isIn => ?_⟩
    rw [there'] at again
    cases again
    exact outside chan there (List.mem_of_mem_erase isIn)
  rw [pending]
  by_cases mem : c ∈ woken
  · obtain ⟨⟨state, call, waits, same⟩, -⟩ := shifted c mem
    have before := arrives.lands.before
    rw [show s.engine.look c = _ from waits] at before
    cases before
    obtain ⟨-, chan'', again, -, found⟩ := sound.waiting c .running call id waits
    rw [there] at again
    cases again
    have one := allowed call id rfl (found opened)
    rw [same] at one
    refine ⟨woken.erase c, distinct.erase c, fun d isIn => ?_, ?_⟩
    · obtain ⟨other, isIn⟩ := distinct.mem_erase_iff.mp isIn
      exact stays d isIn other
    · have length := List.length_erase_of_mem mem
      have positive := List.length_pos_of_mem mem
      omega
  · refine ⟨woken, distinct, fun d isIn => stays d isIn fun same => mem (same ▸ isIn), ?_⟩
    exact Nat.le_trans enough (Nat.le_add_right _ _)

theorem Stepped.covered {s next : Machine} {action : Action} (sound : s.Sound)
    (covered : s.Covered fun _ _ => 0) (stepped : s.Stepped next action) :
    next.Covered fun _ _ => 0 := by
  cases stepped with
  | idles plain silent idles => exact idles.covered covered
  | adds plain adds => exact adds.covered covered
  | opens bus sizeLimit channels chan plain there limit opens => exact opens.covered covered
  | shuts bus channel id chan woken c idle shuts => exact shuts.covered covered
  | calls plain call made turned => exact turned.covered sound (covered_allowance covered call)
  | resumes here c ctx arrives goesOn =>
      cases goesOn with
      | inside outside idles =>
          apply idles.covered
          apply arrives.covered sound covered
          rintro call id rfl
          exact absurd rfl (outside _)
      | retries call id turned =>
          apply turned.covered (arrives.sound sound)
          apply arrives.covered sound covered
          rintro call' id' ⟨⟩ found
          rw [allowance, findChannel_congr arrives.buses]
          exact Nat.le_of_eq (if_pos ⟨found, rfl⟩).symm
      | deletes id chan deletes =>
          apply deletes.covered
          apply arrives.covered sound covered
          rintro call id' ⟨⟩

theorem reaches_covered {s : Machine} (reached : Run.Reaches step init s) :
    s.Covered fun _ _ => 0 := by
  have step (s next : Machine) (action : Action) (before : s.Sound ∧ s.Covered fun _ _ => 0)
      (taken : s.step action = some next) : next.Sound ∧ next.Covered fun _ _ => 0 := by
    have stepped := step_stepped before.1 taken
    exact ⟨stepped.sound before.1, stepped.covered before.1 before.2⟩
  have first : init.Sound ∧ init.Covered fun _ _ => 0 := ⟨init_sound, nofun⟩
  exact (reached.invariant (fun s action next before => step s next action before) first).2

theorem Sound.shiftedRuns {s : Machine} (sound : s.Sound) {c : CoroId} {id : ChanId} {side : Side}
    (shifted : s.Shifted c id side) :
    ∃ call, s.Waits c .running call id ∧ c ∈ s.engine.schedule := by
  obtain ⟨⟨state, call, waits, rfl⟩, outside⟩ := shifted
  obtain ⟨-, chan, there, runs, -⟩ := sound.waiting c state call id waits
  obtain rfl : state = .running := runs.resolve_right fun linked => outside chan there linked.2
  refine ⟨call, waits, (sound.engine.runs c _ waits).resolve_right fun current => ?_⟩
  rw [Waits, sound.engine.currentLook current] at waits
  cases waits

-- Nobody runs, so nobody has been shifted: what waits on a channel has nothing to take.
theorem Sound.idle_pending {s : Machine} (sound : s.Sound) (covered : s.Covered fun _ _ => 0)
    (idle : ∀ c ctx, s.engine.look c ≠ some (.running, ctx)) {c : CoroId} {state : CoroState}
    {call : BusCall} {id : ChanId} {chan : Channel} (waits : s.Waits c state call id)
    (there : s.chans id = some chan) : chan.pending call.side = 0 := by
  obtain ⟨-, chan', there', runs, -⟩ := sound.waiting c state call id waits
  rw [there] at there'
  cases there'
  obtain ⟨opened, linked⟩ := runs.resolve_left fun running => idle c _ (running ▸ waits)
  obtain ⟨woken, -, shifted, enough⟩ :=
    covered id chan call.side there opened (List.ne_nil_of_mem linked)
  cases woken with
  | nil => exact Nat.le_zero.mp enough
  | cons d others =>
      obtain ⟨call', waits', -⟩ := sound.shiftedRuns (shifted d (by simp))
      exact absurd waits' (idle d _)

-- An open channel from whose queue coroutines wait has shifted enough of them for all that it
-- holds, and they are going to run. When nobody is going to run, nobody waits in vain.
theorem no_lost_wakeup {s : Machine} (reached : Run.Reaches step init s) :
    (∀ id chan, s.chans id = some chan → chan.closed = false →
      (chan.queue .recv ≠ [] → ∃ woken : List CoroId, woken.Nodup ∧
        (∀ c ∈ woken, s.Shifted c id .recv ∧ c ∈ s.engine.schedule) ∧
        chan.data.length ≤ woken.length) ∧
      (chan.queue .send ≠ [] → ∃ woken : List CoroId, woken.Nodup ∧
        (∀ c ∈ woken, s.Shifted c id .send ∧ c ∈ s.engine.schedule) ∧
        chan.sizeLimit ≤ chan.data.length + woken.length)) ∧
    ((∀ c ctx, s.engine.look c ≠ some (.running, ctx)) →
      ∀ c state call id chan, s.Waits c state call id → s.chans id = some chan →
        (call.side = .recv → chan.data = []) ∧
        (call.side = .send → chan.sizeLimit ≤ chan.data.length)) := by
  have sound := reaches_sound reached
  have covered := reaches_covered reached
  constructor
  · intro id chan there opened
    constructor
    · intro nonempty
      obtain ⟨woken, distinct, shifted, enough⟩ := covered id chan .recv there opened nonempty
      refine ⟨woken, distinct, fun c mem => ⟨shifted c mem, ?_⟩, enough⟩
      obtain ⟨call, -, scheduled⟩ := sound.shiftedRuns (shifted c mem)
      exact scheduled
    · intro nonempty
      obtain ⟨woken, distinct, shifted, enough⟩ := covered id chan .send there opened nonempty
      refine ⟨woken, distinct, fun c mem => ⟨shifted c mem, ?_⟩, ?_⟩
      · obtain ⟨call, -, scheduled⟩ := sound.shiftedRuns (shifted c mem)
        exact scheduled
      · rw [Channel.pending, Nat.add_zero] at enough
        omega
  · intro idle c state call id chan waits there
    have nothing := sound.idle_pending covered idle waits there
    constructor
    · intro side
      rw [side] at nothing
      exact List.length_eq_zero_iff.mp nothing
    · intro side
      rw [side] at nothing
      exact Nat.sub_eq_zero_iff_le.mp nothing

def contendedRun : List Action :=
  [.busNew, .open_ (some 0) 1, .new, .new, .new, .run, .resume, .recv (some 0) 0, .resume,
    .recv (some 0) 0, .resume, .send (some 0) 0 7]

def contended : Machine := (Run.exec step init contendedRun).get (by decide)

theorem no_lost_wakeup_contended :
    (∃ chan, contended.chans 0 = some chan ∧ chan.data = [7] ∧ chan.queue .recv = [1]) ∧
      ∃ woken : List CoroId, (∀ c ∈ woken, contended.Shifted c 0 .recv) ∧ 1 ≤ woken.length := by
  have reached : Run.Reaches step init contended := ⟨contendedRun, (Option.some_get _).symm⟩
  have there : ∃ chan, contended.chans 0 = some chan ∧ chan.closed = false ∧ chan.data = [7] ∧
      chan.queue .recv = [1] := ⟨_, rfl, rfl, rfl, rfl⟩
  obtain ⟨chan, there, opened, data, queue⟩ := there
  obtain ⟨woken, -, shifted, enough⟩ :=
    ((no_lost_wakeup reached).1 0 chan there opened).1 (by simp [queue])
  rw [data] at enough
  exact ⟨⟨chan, there, data, queue⟩, woken, fun c mem => (shifted c mem).1, enough⟩

end Machine

end SystemProg.Coroutine
