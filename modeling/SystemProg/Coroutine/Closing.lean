import Mathlib.Data.List.Basic
import SystemProg.Coroutine.Wakeups

set_option autoImplicit false

-- `coro_bus_send` and `coro_bus_recv` look their descriptor up again when they are resumed, and do
-- not see that the slot holds another channel than the one they were suspended on.

namespace SystemProg.Coroutine

namespace Machine

-- The coroutine has been suspended in the call, not been resumed yet, and its channel has been
-- closed.
def OnClosed (s : Machine) (c : CoroId) (call : BusCall) : Prop :=
  ∃ state id chan, s.Waits c state call id ∧ s.chans id = some chan ∧ chan.closed = true

def ClosesUnder (s : Machine) (action : Action) (c : CoroId) (call : BusCall) : Prop :=
  ∃ bus channel id state, action = .close bus channel ∧
    s.findChannel bus channel = some (some id) ∧ s.Waits c state call id

structure Refused (s next : Machine) (c : CoroId) (call : BusCall) : Prop where
  control : next.engine.thisCoro = some (.coro c) ∧ next.engine.jump = none
  errno : next.errno = .noChannel
  log : next.log = s.log ++ [.refused (some (.coro c)) call .noChannel]
  data : ∀ id, (next.chans id).map Channel.data = (s.chans id).map Channel.data

def RefusedNext (s : Machine) (c : CoroId) (call : BusCall) : Prop :=
  c ∈ s.engine.schedule ∧ (s.engine.jump = some (.coro c) →
    ∃ next, s.step .resume = some next ∧ s.Refused next c call)

-- The turn of the coroutine is not put off, and it comes nearer when another one runs.
def Nearer (s next : Machine) (c : CoroId) : Prop :=
  next.engine.schedule.idxOf c ≤ s.engine.schedule.idxOf c ∧
    ((∃ d, s.engine.jump = some (.coro d)) →
      next.engine.schedule.idxOf c < s.engine.schedule.idxOf c)

def ReturnsRefused (c : CoroId) (call : BusCall) : List Action → Machine → Prop
  | [], s => s.RefusedNext c call
  | action :: rest, s => s.RefusedNext c call ∧ (s.engine.jump ≠ some (.coro c) →
      ∀ next, s.step action = some next → s.Nearer next c ∧ ReturnsRefused c call rest next)

def ClosesRefuse : List Action → Machine → Prop
  | [], _ => True
  | action :: rest, s => ∀ next, s.step action = some next →
      (∀ c call, s.ClosesUnder action c call → ReturnsRefused c call rest next) ∧
        ClosesRefuse rest next

-- A coroutine that gets control in a call on a closed channel has a descriptor without a channel.
def SlotFree (s : Machine) : Prop :=
  ∀ c call, s.engine.jump = some (.coro c) → s.OnClosed c call →
    s.findChannel call.bus call.channel = some none

theorem onClosed_quiet {s next : Machine} (quiet : s.engine.Quiet next.engine)
    (closed : ∀ id, (∃ chan, next.chans id = some chan ∧ chan.closed = true) ↔
      ∃ chan, s.chans id = some chan ∧ chan.closed = true) (c : CoroId) (call : BusCall) :
    next.OnClosed c call ↔ s.OnClosed c call := by
  constructor
  · rintro ⟨state, id, chan, waits, there, isClosed⟩
    obtain ⟨state', waits'⟩ := quiet.back c state _ waits
    obtain ⟨chan', there', isClosed'⟩ := (closed id).mp ⟨chan, there, isClosed⟩
    exact ⟨state', id, chan', waits', there', isClosed'⟩
  · rintro ⟨state, id, chan, waits, there, isClosed⟩
    obtain ⟨state', waits', -⟩ := quiet.forth c state _ waits
    obtain ⟨chan', there', isClosed'⟩ := (closed id).mpr ⟨chan, there, isClosed⟩
    exact ⟨state', id, chan', waits', there', isClosed'⟩

theorem setChan_closed {s : Machine} {id : ChanId} {chan : Channel} (chan' : Channel)
    (there : s.chans id = some chan) (same : chan'.closed = chan.closed) (id' : ChanId) :
    (∃ after, (s.setChan id chan').chans id' = some after ∧ after.closed = true) ↔
      ∃ before, s.chans id' = some before ∧ before.closed = true := by
  rw [setChan_chans]
  split
  · next equal =>
      subst equal
      simp [there, same]
  · rfl

theorem Opens.onClosed {s next : Machine} {bus : BusId} {slot : Nat} {chan : Channel}
    (sound : s.Sound) (opens : s.Opens next bus slot chan) (c : CoroId) (call : BusCall) :
    next.OnClosed c call ↔ s.OnClosed c call := by
  apply onClosed_quiet
  · rw [opens.engine]
    exact Engine.Quiet.refl _
  · intro id
    rw [opens.chans, setChan_chans]
    split
    · next same =>
        rw [same, sound.fresh s.opened (Nat.le_refl _)]
        simp [opens.empty.1]
    · rfl

theorem Turned.onClosed {s next : Machine} {call : BusCall} (sound : s.Sound)
    (turned : s.Turned next call) (c : CoroId) (call' : BusCall) :
    next.OnClosed c call' ↔ s.OnClosed c call' := by
  cases turned with
  | gone found same =>
      rw [same]
      rfl
  | wouldBlock id chan found there notReady trying same =>
      rw [same]
      rfl
  | moved id chan moves =>
      obtain ⟨rest, -, chans⟩ := moves.queue
      obtain ⟨-, closed, -⟩ := transfer_queue s.engine.thisCoro call id chan
      apply onClosed_quiet moves.quiet
      rw [chans]
      exact setChan_closed _ moves.there closed
  | blocked id chan d blocks =>
      have closed :=
        setChan_closed (chan.setQueue call.side (chan.queue call.side ++ [d])) blocks.there rfl
      rw [← blocks.chans] at closed
      constructor
      · rintro ⟨state, id', chan', waits, there, isClosed⟩
        obtain ⟨chan'', there'', isClosed''⟩ := (closed id').mp ⟨chan', there, isClosed⟩
        by_cases same : c = d
        · -- It has just been suspended, on an open channel.
          subst same
          have here := blocks.leaves.changes.here
          rw [show next.engine.look c = _ from waits] at here
          cases here
          obtain ⟨opened, again, isOpen, -⟩ := sound.found blocks.found
          rw [there''] at again
          cases again
          exact absurd (isClosed''.symm.trans isOpen) (by simp)
        · exact ⟨state, id', chan'', (blocks.leaves.changes.others c same).symm.trans waits, there'',
            isClosed''⟩
      · rintro ⟨state, id', chan', waits, there, isClosed⟩
        obtain ⟨chan'', there'', isClosed''⟩ := (closed id').mpr ⟨chan', there, isClosed⟩
        obtain ⟨state', waits'⟩ := persist_leaves sound.engine blocks.leaves c state call' id' waits
        exact ⟨state', id', chan'', waits', there'', isClosed''⟩

theorem Shuts.onClosed {s next : Machine} {bus : Option BusId} {channel : Int} {id : ChanId}
    {chan : Channel} {woken : Engine Place} {d : CoroId}
    (shuts : s.Shuts next bus channel id chan woken d) (c : CoroId) (call : BusCall) :
    next.OnClosed c call ↔ s.OnClosed c call ∨ ∃ state, s.Waits c state call id := by
  have lookup (id' : ChanId) : next.chans id' =
      if id' = id then some { chan with closed := true } else s.chans id' := by
    rw [shuts.chans]
    exact setChan_chans s id _ id'
  have forth {state : CoroState} {id' : ChanId} (waits : s.Waits c state call id') :
      ∃ state', next.Waits c state' call id' := by
    obtain ⟨state', waits', -⟩ := shuts.quiet.forth c state _ waits
    exact @persist_leaves { s with engine := woken } next shuts.wokenValid d .running _ shuts.leaves
      c state' call id' waits'
  constructor
  · rintro ⟨state, id', chan', waits, there, isClosed⟩
    have other : c ≠ d := by
      rintro rfl
      have here := shuts.leaves.changes.here
      rw [show next.engine.look c = _ from waits] at here
      cases here
    obtain ⟨state', waits'⟩ :=
      shuts.quiet.back c state _ ((shuts.leaves.changes.others c other).symm.trans waits)
    by_cases same : id' = id
    · subst same
      exact Or.inr ⟨state', waits'⟩
    · rw [lookup, if_neg same] at there
      exact Or.inl ⟨state', id', chan', waits', there, isClosed⟩
  · rintro (⟨state, id', chan', waits, there, isClosed⟩ | ⟨state, waits⟩)
    · obtain ⟨state', waits'⟩ := forth waits
      by_cases same : id' = id
      · exact ⟨state', id', _, waits', (lookup id').trans (if_pos same), rfl⟩
      · exact ⟨state', id', chan', waits', ((lookup id').trans (if_neg same)).trans there, isClosed⟩
    · obtain ⟨state', waits'⟩ := forth waits
      exact ⟨state', id, _, waits', (lookup id).trans (if_pos rfl), rfl⟩

theorem Arrives.onClosed {s here : Machine} {d : CoroId} {ctx : Context Place}
    (arrives : s.Arrives here d ctx) (c : CoroId) (call : BusCall) :
    here.OnClosed c call ↔ s.OnClosed c call ∧ c ≠ d := by
  constructor
  · rintro ⟨state, id, chan, waits, there, isClosed⟩
    have other : c ≠ d := by
      rintro rfl
      have active := arrives.lands.changes.here
      rw [show here.engine.look c = _ from waits] at active
      cases active
    rw [arrives.chans, Option.map_eq_some_iff] at there
    obtain ⟨chan', there, rfl⟩ := there
    exact ⟨⟨state, id, chan', (arrives.lands.changes.others c other).symm.trans waits, there,
      isClosed⟩, other⟩
  · rintro ⟨⟨state, id, chan, waits, there, isClosed⟩, other⟩
    refine ⟨state, id, chan.without d, (arrives.lands.changes.others c other).trans waits, ?_,
      isClosed⟩
    rw [arrives.chans, there]
    rfl

theorem GoesOn.onClosed {here next : Machine} {ctx : Context Place} (sound : here.Sound)
    (goesOn : here.GoesOn next ctx) (c : CoroId) (call : BusCall) :
    next.OnClosed c call ↔ here.OnClosed c call := by
  cases goesOn with
  | inside outside idles =>
      apply onClosed_quiet idles.quiet
      rw [idles.chans]
      exact fun _ => Iff.rfl
  | retries call' id turned => exact turned.onClosed sound c call
  | deletes id chan deletes =>
      rw [deletes.same]
      apply onClosed_quiet
      · exact Engine.Quiet.refl _
      · exact setChan_closed _ deletes.there rfl

theorem step_onClosed {s next : Machine} (sound : s.Sound) {action : Action}
    (taken : s.step action = some next) (c : CoroId) (call : BusCall) :
    next.OnClosed c call ↔
      (s.OnClosed c call ∧ s.engine.jump ≠ some (.coro c)) ∨ s.ClosesUnder action c call := by
  have plainly (plain : s.Plain action) (same : next.OnClosed c call ↔ s.OnClosed c call) :
      next.OnClosed c call ↔
        (s.OnClosed c call ∧ s.engine.jump ≠ some (.coro c)) ∨ s.ClosesUnder action c call := by
    have noClose : ¬s.ClosesUnder action c call := by
      rintro ⟨bus, channel, id, state, isClose, found, -⟩
      exact plain.keeps bus channel id isClose found
    rw [same, or_iff_left noClose, and_iff_left (plain.stays c)]
  cases step_stepped sound taken with
  | idles plain silent idles =>
      apply plainly plain
      apply onClosed_quiet idles.quiet
      rw [idles.chans]
      exact fun _ => Iff.rfl
  | adds plain adds =>
      apply plainly plain
      apply onClosed_quiet
      · rw [adds.engine]
        exact Engine.Quiet.refl _
      · rw [adds.chans]
        exact fun _ => Iff.rfl
  | opens bus sizeLimit channels chan plain there limit opens =>
      exact plainly plain (opens.onClosed sound c call)
  | calls plain call' made turned => exact plainly plain (turned.onClosed sound c call)
  | shuts bus channel id chan woken d idle shuts =>
      rw [shuts.onClosed, idle, and_iff_left (by simp)]
      apply or_congr_right
      constructor
      · rintro ⟨state, waits⟩
        exact ⟨bus, channel, id, state, rfl, shuts.found, waits⟩
      · rintro ⟨bus', channel', id', state, same, found, waits⟩
        cases same
        rw [shuts.found] at found
        cases found
        exact ⟨state, waits⟩
  | resumes here d ctx arrives goesOn =>
      rw [goesOn.onClosed (arrives.sound sound), arrives.onClosed, arrives.jump, or_iff_left]
      · simp [eq_comm]
      · rintro ⟨bus, channel, id, state, same, -⟩
        cases same

theorem Turned.grows {s next : Machine} {call : BusCall} (turned : s.Turned next call) :
    ∃ added, next.engine.schedule = s.engine.schedule ++ added := by
  cases turned with
  | gone found same => exact ⟨[], by simp [same, refuse]⟩
  | wouldBlock id chan found there notReady trying same => exact ⟨[], by simp [same, refuse]⟩
  | moved id chan moves => exact moves.quiet.grows
  | blocked id chan d blocks => exact ⟨[], by simp [blocks.schedule]⟩

theorem GoesOn.grows {here next : Machine} {ctx : Context Place} (goesOn : here.GoesOn next ctx) :
    ∃ added, next.engine.schedule = here.engine.schedule ++ added := by
  cases goesOn with
  | inside outside idles => exact idles.quiet.grows
  | retries call id turned => exact turned.grows
  | deletes id chan deletes => exact ⟨[], by simp [deletes.same, setChan]⟩

theorem nearer_grows {s next : Machine} {c : CoroId} (scheduled : c ∈ s.engine.schedule)
    (other : ∀ d, s.engine.jump ≠ some (.coro d))
    (grows : ∃ added, next.engine.schedule = s.engine.schedule ++ added) : s.Nearer next c := by
  obtain ⟨added, schedule⟩ := grows
  constructor
  · rw [schedule]
    exact Nat.le_of_eq (List.idxOf_append_of_mem scheduled)
  · rintro ⟨d, jump⟩
    exact absurd jump (other d)

theorem step_nearer {s next : Machine} (sound : s.Sound) {action : Action}
    (taken : s.step action = some next) {c : CoroId} (scheduled : c ∈ s.engine.schedule)
    (other : s.engine.jump ≠ some (.coro c)) : s.Nearer next c := by
  cases step_stepped sound taken with
  | idles plain silent idles => exact nearer_grows scheduled plain.stays idles.quiet.grows
  | adds plain adds => exact nearer_grows scheduled plain.stays ⟨[], by simp [adds.engine]⟩
  | opens bus sizeLimit channels chan plain there limit opens =>
      exact nearer_grows scheduled plain.stays ⟨[], by simp [opens.engine]⟩
  | calls plain call made turned => exact nearer_grows scheduled plain.stays turned.grows
  | shuts bus channel id chan woken d idle shuts =>
      obtain ⟨added, schedule⟩ := shuts.quiet.grows
      apply nearer_grows scheduled (by simp [idle])
      exact ⟨added ++ [d], by rw [shuts.schedule, schedule, List.append_assoc]⟩
  | resumes here d ctx arrives goesOn =>
      obtain ⟨added, schedule⟩ := goesOn.grows
      have notD : d ≠ c := by
        rintro rfl
        exact other arrives.jump
      have front := arrives.lands.schedule
      have behind : c ∈ here.engine.schedule := by
        rw [front] at scheduled
        exact (List.mem_cons.mp scheduled).resolve_left (Ne.symm notD)
      have less : next.engine.schedule.idxOf c < s.engine.schedule.idxOf c := by
        rw [schedule, List.idxOf_append_of_mem behind, front, List.idxOf_cons_ne _ notD]
        exact Nat.lt_succ_self _
      exact ⟨Nat.le_of_lt less, fun _ => less⟩

theorem Sound.onClosed_scheduled {s : Machine} (sound : s.Sound) {c : CoroId} {call : BusCall}
    (onClosed : s.OnClosed c call) : c ∈ s.engine.schedule := by
  obtain ⟨state, id, chan, waits, there, closed⟩ := onClosed
  obtain ⟨-, chan', there', runs, -⟩ := sound.waiting c state call id waits
  rw [there] at there'
  cases there'
  obtain rfl : state = .running := by
    refine runs.resolve_right fun linked => ?_
    exact absurd (closed.symm.trans linked.1) (by simp)
  refine (sound.engine.runs c _ waits).resolve_right fun current => ?_
  rw [Waits, sound.engine.currentLook current] at waits
  cases waits

-- The call looks its descriptor up when it is resumed, and that alone decides.
theorem refused_iff {s : Machine} (sound : s.Sound) {c : CoroId} {call : BusCall}
    (jump : s.engine.jump = some (.coro c)) (onClosed : s.OnClosed c call) :
    (∃ next, s.step .resume = some next ∧ s.Refused next c call) ↔
      s.findChannel call.bus call.channel = some none := by
  obtain ⟨state, id, chan, waits, -, -⟩ := onClosed
  obtain ⟨here, arrives, resumed⟩ := resume_waiting sound jump waits
  have stepped : s.step .resume = here.busTurn call := by
    rw [step, if_neg (by simp [jump]), if_pos rfl, resumed]
  have current := arrives.lands.thisCoro
  have data (id' : ChanId) : (here.chans id').map Channel.data = (s.chans id').map Channel.data := by
    rw [arrives.chans, Option.map_map]
    rfl
  rw [stepped, ← findChannel_congr arrives.buses]
  constructor
  · rintro ⟨next, turned, refused⟩
    have log := refused.log
    rw [← arrives.log] at log
    cases busTurn_turned (arrives.sound sound) arrives.lands.jump turned with
    | gone found same => exact found
    | wouldBlock id' chan' found there notReady trying same =>
        rw [same] at log
        simp [refuse] at log
    | moved id' chan' moves =>
        rw [moves.log, List.append_cancel_left_eq, List.cons.injEq] at log
        have event := log.1
        unfold transfer at event
        cases op : call.op <;> rw [op] at event <;> cases event
    | blocked id' chan' d blocks =>
        rw [blocks.log] at log
        simp at log
  · intro found
    refine ⟨here.refuse call .noChannel, ?_, ⟨current, arrives.lands.jump⟩, rfl, ?_, data⟩
    · rw [busTurn, found]
    · rw [refuse, current, arrives.log]

theorem refusedNext_iff {s : Machine} (sound : s.Sound) :
    (∀ c call, s.OnClosed c call → s.RefusedNext c call) ↔ s.SlotFree := by
  constructor
  · intro refused c call jump onClosed
    exact (refused_iff sound jump onClosed).mp ((refused c call onClosed).2 jump)
  · intro free c call onClosed
    refine ⟨sound.onClosed_scheduled onClosed, fun jump => ?_⟩
    exact (refused_iff sound jump onClosed).mpr (free c call jump onClosed)

theorem closesRefuse_iff {s : Machine} (sound : s.Sound) (actions : List Action) :
    (∀ c call, s.OnClosed c call → ReturnsRefused c call actions s) ∧ ClosesRefuse actions s ↔
      Run.Along step SlotFree s actions := by
  induction actions generalizing s with
  | nil => simp only [ReturnsRefused, ClosesRefuse, and_true, refusedNext_iff sound, Run.Along]
  | cons action rest ih =>
      constructor
      · rintro ⟨returns, closes⟩
        have free := (refusedNext_iff sound).mp fun c call onClosed => (returns c call onClosed).1
        refine ⟨free, fun next taken => ?_⟩
        obtain ⟨under, later⟩ := closes next taken
        refine (ih ((step_stepped sound taken).sound sound)).mp ⟨fun c call onClosed => ?_, later⟩
        rcases (step_onClosed sound taken c call).mp onClosed with ⟨before, other⟩ | closed
        · exact ((returns c call before).2 other next taken).2
        · exact under c call closed
      · rintro ⟨free, along⟩
        have after (next : Machine) (taken : s.step action = some next) :=
          (ih ((step_stepped sound taken).sound sound)).mpr (along next taken)
        have onClosed (next : Machine) (taken : s.step action = some next) :=
          step_onClosed sound taken
        constructor
        · intro c call before
          have refused := (refusedNext_iff sound).mpr free c call before
          refine ⟨refused, fun other next taken => ⟨step_nearer sound taken refused.1 other, ?_⟩⟩
          exact (after next taken).1 c call ((onClosed next taken c call).mpr (Or.inl ⟨before, other⟩))
        · intro next taken
          refine ⟨fun c call closed => ?_, (after next taken).2⟩
          exact (after next taken).1 c call ((onClosed next taken c call).mpr (Or.inr closed))

theorem init_onClosed (c : CoroId) (call : BusCall) : ¬init.OnClosed c call := by
  rintro ⟨state, id, chan, waits, -⟩
  cases waits

theorem closed_calls_refused_iff (actions : List Action) :
    ClosesRefuse actions init ↔ Run.Along step SlotFree init actions := by
  rw [← closesRefuse_iff init_sound]
  constructor
  · intro closes
    exact ⟨fun c call onClosed => absurd onClosed (init_onClosed c call), closes⟩
  · exact And.right

-- A coroutine waits for a message, and another one closes the channel. Before the first one runs, a
-- third one opens a channel, gets the same descriptor for it and sends.
def reopenRun : List Action :=
  [.busNew, .new, .new, .new, .run, .resume, .open_ (some 0) 1, .recv (some 0) 0, .resume,
    .close (some 0) 0, .resume, .open_ (some 0) 1, .send (some 0) 0 7, .yield, .resume]

def reopened : Machine := (Run.exec step init reopenRun).get (by decide)

theorem closed_receiver_takes_message :
    ¬ClosesRefuse reopenRun init ∧
      (reopened.step .resume).map (fun next => next.log.getLast?) =
        some (some (.received (some (.coro 0))
          { op := .recv, blocking := true, bus := some 0, channel := 0 } 1 (some 7))) := by
  constructor
  · intro closes
    have along : Run.Along step SlotFree init (reopenRun ++ []) := by
      rw [List.append_nil, ← closesRefuse_iff init_sound]
      exact ⟨fun c call onClosed => absurd onClosed (init_onClosed c call), closes⟩
    have free : reopened.SlotFree := along.reached (Option.some_get _).symm
    have onClosed : reopened.OnClosed 0
        { op := .recv, blocking := true, bus := some 0, channel := 0 } :=
      ⟨.running, 0, _, rfl, rfl, rfl⟩
    have none := free 0 _ rfl onClosed
    cases none
  · rfl

end Machine

end SystemProg.Coroutine
