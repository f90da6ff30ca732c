import SystemProg.Coroutine.Descriptors

set_option autoImplicit false

-- `coro_bus_delete` beside the machine. What has been deleted is not read again: a step that reads
-- a deleted bus or deletes a channel twice has no outcome.

namespace SystemProg.Coroutine

inductive Request where
  | act (action : Action)
  | delete (bus : Option BusId)
deriving DecidableEq, Repr

def Request.action? : Request → Option Action
  | .act action => some action
  | .delete _ => none

def Request.Ends (request : Request) (bus : BusId) (slot : Nat) : Prop :=
  request = .act (.close (some bus) slot) ∨ request = .delete (some bus)

def Context.bus : Context Place → Option BusId
  | .frame (.waiting call _) => call.bus
  | _ => none

def Machine.reads (s : Machine) (action : Action) : Option BusId :=
  if action = .resume then s.arriving.bind Context.bus else action.bus

-- The machine, the buses that are deleted, and the channels in the order of their deletion.
structure Heap where
  machine : Machine
  gone : List BusId
  deleted : List ChanId

def deleteAll : List (Option ChanId) → List ChanId → Option (List ChanId)
  | [], deleted => some deleted
  | none :: rest, deleted => deleteAll rest deleted
  | some id :: rest, deleted =>
      if id ∈ deleted then none else deleteAll rest (deleted ++ [id])

namespace Heap

def init : Heap := { machine := .init, gone := [], deleted := [] }

def coroBusDelete (h : Heap) : Option BusId → Option Heap
  | none => some h
  | some bus =>
      if h.machine.engine.jump ≠ none ∨ bus ∈ h.gone then none
      else
        match h.machine.buses[bus]? with
        | none => none
        | some channels =>
            (deleteAll channels h.deleted).map fun deleted =>
              { h with gone := bus :: h.gone, deleted := deleted }

def step (h : Heap) : Request → Option Heap
  | .act action =>
      if (∀ bus ∈ h.gone, h.machine.reads action ≠ some bus) ∧
          ∀ id ∈ h.machine.toDelete action, id ∉ h.deleted then
        (h.machine.step action).map fun s =>
          { h with machine := s, deleted := h.deleted ++ h.machine.toDelete action }
      else none
  | .delete bus => h.coroBusDelete bus

def Denotes (h : Heap) (bus : BusId) (slot : Nat) (id : ChanId) : Prop :=
  bus ∉ h.gone ∧ h.machine.slotAt bus slot = some id

def Open (h : Heap) (id : ChanId) : Prop :=
  (∃ chan, h.machine.chans id = some chan ∧ chan.closed = false) ∧ id ∉ h.deleted

-- One slot has the channel, one coroutine that is about to delete it, or it has been deleted once.
inductive Accounted (h : Heap) (id : ChanId) : Prop where
  | inSlot (bus : BusId) (slot : Nat) (denotes : h.Denotes bus slot id)
      (idle : ∀ c state, ¬h.machine.Closes c state id) (alive : id ∉ h.deleted)
  | closing (c : CoroId) (closes : h.machine.Closes c .running id)
      (scheduled : c ∈ h.machine.engine.schedule)
      (only : ∀ d state, h.machine.Closes d state id → d = c)
      (unslotted : ∀ bus slot, ¬h.Denotes bus slot id) (alive : id ∉ h.deleted)
  | deleted (once : h.deleted.count id = 1) (unslotted : ∀ bus slot, ¬h.Denotes bus slot id)
      (idle : ∀ c state, ¬h.machine.Closes c state id)

end Heap

-- The channel has the limit and the messages that it had, but for those that have been sent to it
-- and received from it.
structure Machine.Continues (s t : Machine) (id : ChanId) : Prop where
  limit : (t.chans id).map Channel.sizeLimit = (s.chans id).map Channel.sizeLimit
  messages : ∃ events, t.log = s.log ++ events ∧
    s.content id ++ events.filterMap (Event.sentTo id) =
      events.filterMap (Event.receivedFrom id) ++ t.content id ∧
    (events.filterMap (Event.sentTo id) = [] → events.filterMap (Event.receivedFrom id) = [] →
      t.content id = s.content id)

theorem deleteAll_eq {channels : List (Option ChanId)} {deleted deleted' : List ChanId}
    (run : deleteAll channels deleted = some deleted') :
    deleted' = deleted ++ channels.reduceOption ∧ (deleted.Nodup → deleted'.Nodup) := by
  induction channels generalizing deleted with
  | nil =>
      cases run
      exact ⟨by simp, id⟩
  | cons slot rest ih =>
      cases slot with
      | none => exact ih run
      | some id =>
          rw [deleteAll] at run
          split at run
          · cases run
          · next alive =>
              obtain ⟨rfl, distinct⟩ := ih run
              refine ⟨by simp, fun before => distinct ?_⟩
              rw [List.nodup_append]
              refine ⟨before, by simp, ?_⟩
              rintro other mem new last rfl
              rw [List.mem_singleton.mp last] at mem
              exact alive mem

theorem deleteAll_defined {channels : List (Option ChanId)} {deleted : List ChanId}
    (distinct : channels.reduceOption.Nodup) (alive : ∀ id, some id ∈ channels → id ∉ deleted) :
    ∃ deleted', deleteAll channels deleted = some deleted' := by
  induction channels generalizing deleted with
  | nil => exact ⟨deleted, rfl⟩
  | cons slot rest ih =>
      cases slot with
      | none => exact ih distinct fun id mem => alive id (List.mem_cons_of_mem _ mem)
      | some id =>
          rw [List.reduceOption_cons_of_some, List.nodup_cons] at distinct
          rw [deleteAll, if_neg (alive id (List.mem_cons_self ..))]
          refine ih distinct.2 fun other mem before => ?_
          rcases List.mem_append.mp before with before | last
          · exact alive other (List.mem_cons_of_mem _ mem) before
          · rw [List.mem_singleton] at last
            subst last
            exact distinct.1 (List.reduceOption_mem_iff.mpr mem)

namespace Machine

theorem mem_channels {s : Machine} {bus : BusId} {id : ChanId} :
    some id ∈ s.channels bus ↔ ∃ slot, s.slotAt bus slot = some id := by
  simp only [slotAt_channels, Option.join_eq_some_iff, List.mem_iff_getElem?]

theorem Sound.channelsDistinct {s : Machine} (sound : s.Sound) (bus : BusId) :
    (s.channels bus).reduceOption.Nodup := by
  rw [List.reduceOption, List.Nodup, List.pairwise_filterMap, List.pairwise_iff_getElem]
  intro slot slot' small small' before id there id' there' same
  simp only [id_eq] at there there'
  subst same
  have at_ (k : Nat) (inside : k < (s.channels bus).length)
      (equal : (s.channels bus)[k] = some id) : s.slotAt bus k = some id := by
    rw [slotAt_channels, List.getElem?_eq_getElem inside, equal]
    rfl
  obtain ⟨-, equal⟩ := sound.slotsDistinct bus slot bus slot' id (at_ slot small there)
    (at_ slot' small' there')
  exact absurd equal (Nat.ne_of_lt before)

end Machine

namespace Heap

structure Owned (h : Heap) : Prop where
  reached : Run.Reaches Machine.step .init h.machine
  deleted : ∀ id, id ∈ h.deleted ↔ h.machine.Deleted id ∨
    ∃ bus ∈ h.gone, ∃ slot, h.machine.slotAt bus slot = some id
  distinct : h.deleted.Nodup

theorem step_act {h q : Heap} {action : Action} (taken : h.step (.act action) = some q) :
    (∀ bus ∈ h.gone, h.machine.reads action ≠ some bus) ∧
      (∀ id ∈ h.machine.toDelete action, id ∉ h.deleted) ∧
      h.machine.step action = some q.machine ∧ q.gone = h.gone ∧
      q.deleted = h.deleted ++ h.machine.toDelete action := by
  rw [step] at taken
  split at taken
  · next clear =>
      rw [Option.map_eq_some_iff] at taken
      obtain ⟨s, taken, rfl⟩ := taken
      exact ⟨clear.1, clear.2, taken, rfl, rfl⟩
  · cases taken

theorem step_delete {h q : Heap} {bus : Option BusId} (taken : h.step (.delete bus) = some q) :
    bus = none ∧ q = h ∨ ∃ b, bus = some b ∧ b ∉ h.gone ∧ q.machine = h.machine ∧
      q.gone = b :: h.gone ∧ deleteAll (h.machine.channels b) h.deleted = some q.deleted := by
  cases bus with
  | none => exact Or.inl ⟨rfl, (Option.some.inj taken).symm⟩
  | some b =>
      rw [step, coroBusDelete] at taken
      split at taken
      · cases taken
      · next clear =>
          rw [not_or] at clear
          split at taken
          · cases taken
          · next channels there =>
              rw [Option.map_eq_some_iff] at taken
              obtain ⟨deleted, all, rfl⟩ := taken
              refine Or.inr ⟨b, rfl, clear.2, rfl, rfl, ?_⟩
              rw [Machine.channels, there]
              exact all

theorem reads_bus {s : Machine} {action : Action} {bus : BusId}
    (other : s.reads action ≠ some bus) : action.bus ≠ some bus := by
  rw [Machine.reads] at other
  split at other
  · next same =>
      rw [same]
      nofun
  · exact other

theorem toDelete_nodup (s : Machine) (action : Action) : (s.toDelete action).Nodup := by
  unfold Machine.toDelete
  split
  · cases s.arriving with
    | none => exact List.nodup_nil
    | some ctx =>
        simp only [Option.map_some, Option.getD_some]
        unfold Context.toDelete
        split <;> simp
  · exact List.nodup_nil

theorem step_owned {h q : Heap} {request : Request} (owned : h.Owned)
    (taken : h.step request = some q) : q.Owned := by
  have sound := Machine.reaches_sound owned.reached
  cases request with
  | act action =>
      obtain ⟨untouched, alive, taken, gone, deleted⟩ := step_act taken
      have effect := Machine.step_effect sound taken
      refine ⟨owned.reached.snoc taken, fun id => ?_, ?_⟩
      · have slots (bus : BusId) (mem : bus ∈ h.gone) (slot : Nat) :
            q.machine.slotAt bus slot = h.machine.slotAt bus slot := by
          rw [Machine.slotAt_channels, Machine.slotAt_channels,
            effect.channels (reads_bus (untouched bus mem))]
        have same : (∃ bus ∈ h.gone, ∃ slot, q.machine.slotAt bus slot = some id) ↔
            ∃ bus ∈ h.gone, ∃ slot, h.machine.slotAt bus slot = some id := by
          constructor
          · rintro ⟨bus, mem, slot, at_⟩
            exact ⟨bus, mem, slot, (slots bus mem slot).symm.trans at_⟩
          · rintro ⟨bus, mem, slot, at_⟩
            exact ⟨bus, mem, slot, (slots bus mem slot).trans at_⟩
        rw [deleted, gone, List.mem_append, owned.deleted, effect.deleted sound, same]
        exact or_right_comm
      · rw [deleted, List.nodup_append]
        refine ⟨owned.distinct, toDelete_nodup _ _, ?_⟩
        rintro id before id' new rfl
        exact alive id new before
  | delete bus =>
      rcases step_delete taken with ⟨-, rfl⟩ | ⟨b, rfl, -, machine, gone, all⟩
      · exact owned
      · obtain ⟨deleted, distinct⟩ := deleteAll_eq all
        refine ⟨machine ▸ owned.reached, fun id => ?_, distinct owned.distinct⟩
        rw [deleted, List.mem_append, owned.deleted, List.reduceOption_mem_iff,
          Machine.mem_channels, machine, gone]
        simp only [List.mem_cons, exists_eq_or_imp]
        exact or_assoc.trans (or_congr_right or_comm)

theorem init_owned : init.Owned where
  reached := Run.Reaches.refl _
  deleted := by
    intro id
    constructor
    · nofun
    · rintro (⟨chan, there, -⟩ | ⟨bus, mem, -⟩)
      · cases there
      · cases mem
  distinct := List.nodup_nil

theorem run_owned {h : Heap} {requests : List Request}
    (run : Run.exec step init requests = some h) : h.Owned :=
  Run.exec_invariant Owned (fun _ _ _ owned taken => step_owned owned taken) init_owned run

theorem Owned.accounted {h : Heap} (owned : h.Owned) {id : ChanId}
    (known : id < h.machine.opened) : h.Accounted id := by
  have sound := Machine.reaches_sound owned.reached
  have closers := Machine.reaches_closers owned.reached
  have filed := Machine.reaches_filed owned.reached
  obtain ⟨chan, there⟩ := filed.created id known
  have once (mem : id ∈ h.deleted) : h.deleted.count id = 1 :=
    List.count_eq_one_of_mem owned.distinct mem
  -- A channel in a slot is open, so nobody closes it.
  have slotted {bus slot : Nat} (at_ : h.machine.slotAt bus slot = some id) :
      chan.closed = false ∧ ∀ c state, ¬h.machine.Closes c state id := by
    obtain ⟨chan', there', opened⟩ := sound.slots bus slot id at_
    rw [there] at there'
    cases there'
    refine ⟨opened, fun c state closes => ?_⟩
    obtain ⟨chan', there', closed, -⟩ := sound.closing c state id closes
    rw [there] at there'
    cases there'
    rw [opened] at closed
    cases closed
  cases freed : chan.freed with
  | true =>
      refine .deleted (once ((owned.deleted id).mpr (Or.inl ⟨chan, there, freed⟩))) ?_ ?_
      · intro bus slot denotes
        have closed := (sound.freed id chan there freed).1
        rw [(slotted denotes.2).1] at closed
        cases closed
      · intro c state closes
        have alive := closers.alive c state id chan closes there
        rw [freed] at alive
        cases alive
  | false =>
      have notDeleted : ¬h.machine.Deleted id := by
        rintro ⟨chan', there', freed'⟩
        rw [there] at there'
        cases there'
        rw [freed] at freed'
        cases freed'
      rcases filed.placed id chan there freed with ⟨bus, slot, at_⟩ | ⟨c, closes⟩
      · have only {bus' slot' : Nat} (at' : h.machine.slotAt bus' slot' = some id) : bus' = bus :=
          (sound.slotsDistinct bus' slot' bus slot id at' at_).1
        by_cases gone : bus ∈ h.gone
        · refine .deleted (once ((owned.deleted id).mpr (Or.inr ⟨bus, gone, slot, at_⟩))) ?_
            (slotted at_).2
          intro bus' slot' denotes
          exact denotes.1 (only denotes.2 ▸ gone)
        · refine .inSlot bus slot ⟨gone, at_⟩ (slotted at_).2 fun mem => ?_
          obtain ⟨bus', gone', slot', at'⟩ := ((owned.deleted id).mp mem).resolve_left notDeleted
          exact gone (only at' ▸ gone')
      · have unslotted (bus slot : Nat) : h.machine.slotAt bus slot ≠ some id :=
          fun at_ => (slotted at_).2 c .running closes
        refine .closing c closes ?_ (fun d state other => closers.one d state c .running id other closes)
          (fun bus slot denotes => unslotted bus slot denotes.2) fun mem => ?_
        · refine (sound.engine.runs c _ closes).resolve_right fun current => ?_
          have look := sound.engine.currentLook current
          rw [show h.machine.engine.look c = _ from closes] at look
          cases look
        · obtain ⟨bus, -, slot, at_⟩ := ((owned.deleted id).mp mem).resolve_left notDeleted
          exact unslotted bus slot at_

theorem denotes_opened {h : Heap} (owned : h.Owned) {bus slot : Nat} {id : ChanId}
    (event : .opened bus slot id ∈ h.machine.log) (isOpen : h.Open id) : h.Denotes bus slot id := by
  obtain ⟨⟨chan, there, opened⟩, alive⟩ := isOpen
  have sound := Machine.reaches_sound owned.reached
  have filed := Machine.reaches_filed owned.reached
  cases owned.accounted (filed.known bus slot id event) with
  | inSlot bus' slot' denotes idle alive =>
      obtain ⟨rfl, rfl⟩ := filed.once bus slot bus' slot' id event (filed.logged _ _ _ denotes.2)
      exact denotes
  | closing c closes =>
      obtain ⟨chan', there', closed, -⟩ := sound.closing c .running id closes
      rw [there] at there'
      cases there'
      rw [opened] at closed
      cases closed
  | deleted once => exact absurd (List.count_pos_iff.mp (once ▸ Nat.zero_lt_one)) alive

theorem Denotes.isOpen {h : Heap} (owned : h.Owned) {bus slot : Nat} {id : ChanId}
    (denotes : h.Denotes bus slot id) : h.Open id := by
  have sound := Machine.reaches_sound owned.reached
  obtain ⟨chan, there, opened⟩ := sound.slots bus slot id denotes.2
  refine ⟨⟨chan, there, opened⟩, fun mem => ?_⟩
  rcases (owned.deleted id).mp mem with ⟨chan', there', freed⟩ | ⟨bus', gone, slot', at_⟩
  · rw [there] at there'
    cases there'
    rw [(sound.freed id chan there freed).1] at opened
    cases opened
  · exact denotes.1 ((sound.slotsDistinct bus' slot' bus slot id at_ denotes.2).1 ▸ gone)

theorem step_denotes {h q : Heap} {request : Request} (owned : h.Owned)
    (taken : h.step request = some q) {bus slot : Nat} {id : ChanId}
    (denotes : h.Denotes bus slot id) (stays : ¬request.Ends bus slot) :
    q.Denotes bus slot id ∧
      (q.machine.chans id).map Channel.fixed = (h.machine.chans id).map Channel.fixed := by
  rw [Request.Ends, not_or] at stays
  cases request with
  | act action =>
      obtain ⟨-, -, taken, gone, -⟩ := step_act taken
      have sound := Machine.reaches_sound owned.reached
      obtain ⟨at_, fixed⟩ := (Machine.step_effect sound taken).keeps sound denotes.2
        fun same => stays.1 (congrArg Request.act same)
      exact ⟨⟨gone ▸ denotes.1, at_⟩, fixed⟩
  | delete bus' =>
      rcases step_delete taken with ⟨-, rfl⟩ | ⟨b, rfl, -, machine, gone, -⟩
      · exact ⟨denotes, rfl⟩
      · rw [machine]
        refine ⟨⟨?_, machine ▸ denotes.2⟩, rfl⟩
        rw [gone, List.mem_cons, not_or]
        refine ⟨?_, denotes.1⟩
        rintro rfl
        exact stays.2 rfl

theorem run_denotes {h q : Heap} {requests : List Request} (owned : h.Owned)
    (run : Run.exec step h requests = some q) {bus slot : Nat} {id : ChanId}
    (denotes : h.Denotes bus slot id) (stays : ∀ request ∈ requests, ¬request.Ends bus slot) :
    q.Denotes bus slot id ∧
      (q.machine.chans id).map Channel.fixed = (h.machine.chans id).map Channel.fixed := by
  induction requests generalizing h with
  | nil =>
      cases run
      exact ⟨denotes, rfl⟩
  | cons request rest ih =>
      obtain ⟨next, taken, run⟩ := (Run.exec_cons _ _ _ _).mp run
      obtain ⟨denotes', fixed⟩ :=
        step_denotes owned taken denotes (stays request (List.mem_cons_self ..))
      obtain ⟨denotes'', fixed'⟩ := ih (step_owned owned taken) run denotes'
        fun later mem => stays later (List.mem_cons_of_mem _ mem)
      exact ⟨denotes'', fixed'.trans fixed⟩

theorem run_machine {h q : Heap} {requests : List Request}
    (run : Run.exec step h requests = some q) :
    Run.exec Machine.step h.machine (requests.filterMap Request.action?) = some q.machine := by
  induction requests generalizing h with
  | nil =>
      cases run
      rfl
  | cons request rest ih =>
      obtain ⟨next, taken, run⟩ := (Run.exec_cons _ _ _ _).mp run
      have later := ih run
      cases request with
      | act action =>
          have first : (Request.act action :: rest).filterMap Request.action? =
              action :: rest.filterMap Request.action? := rfl
          rw [first, Run.exec_cons]
          exact ⟨next.machine, (step_act taken).2.2.1, later⟩
      | delete bus =>
          have first : (Request.delete bus :: rest).filterMap Request.action? =
              rest.filterMap Request.action? := rfl
          rw [first]
          rcases step_delete taken with ⟨-, rfl⟩ | ⟨b, rfl, -, machine, -⟩
          · exact later
          · exact machine ▸ later

theorem run_continues {h q : Heap} {requests : List Request} (owned : h.Owned)
    (run : Run.exec step h requests = some q) {id : ChanId}
    (fixed : (q.machine.chans id).map Channel.fixed = (h.machine.chans id).map Channel.fixed) :
    h.machine.Continues q.machine id := by
  obtain ⟨events, log, flows⟩ :=
    Machine.run_flows (Machine.reaches_sound owned.reached) (run_machine run)
  refine ⟨?_, events, log, flows id, fun unsent unreceived => ?_⟩
  · have limits := congrArg (Option.map Prod.fst) fixed
    rw [Option.map_map, Option.map_map] at limits
    exact limits
  · have same := flows id
    rw [unsent, unreceived, List.append_nil, List.nil_append] at same
    exact same.symm

theorem step_grows {h q : Heap} {request : Request} (owned : h.Owned)
    (taken : h.step request = some q) (bus : BusId) :
    (q.machine.channels bus).length = (h.machine.channels bus).length ∨
      (h.machine.channels bus).length ≤ (q.machine.channels bus).length ∧
        q.machine.openCount bus = (q.machine.channels bus).length := by
  cases request with
  | act action =>
      obtain ⟨-, -, taken, -⟩ := step_act taken
      exact (Machine.step_effect (Machine.reaches_sound owned.reached) taken).grows bus
  | delete bus' =>
      rcases step_delete taken with ⟨-, rfl⟩ | ⟨b, rfl, -, machine, -⟩
      · exact Or.inl rfl
      · exact Or.inl (by rw [machine])

theorem open_denotes {h q : Heap} {bus : BusId} {sizeLimit : Nat}
    (taken : h.step (.act (.open_ (some bus) sizeLimit)) = some q) :
    ∃ slot, q.machine.log = h.machine.log ++ [.opened bus slot h.machine.opened] ∧
      q.Denotes bus slot h.machine.opened ∧ (∀ id, ¬h.Denotes bus slot id) ∧
      (∀ slot' < slot, ∃ id, h.Denotes bus slot' id) ∧ ∃ chan,
        q.machine.chans h.machine.opened = some chan ∧ chan.sizeLimit = sizeLimit ∧
          chan.data = [] := by
  obtain ⟨untouched, -, taken, gone, -⟩ := step_act taken
  have alive : bus ∉ h.gone := fun mem => untouched bus mem rfl
  obtain ⟨_, channels, chan, ⟨⟩, there, limit, opens⟩ := Machine.open_opens (Machine.step_open taken)
  have array : h.machine.channels bus = channels := by
    rw [Machine.channels, there]
    rfl
  refine ⟨Machine.freeSlot channels, opens.log, ⟨gone ▸ alive, ?_⟩, ?_, ?_, chan, ?_, limit,
    opens.empty.2.2.2⟩
  · rw [opens.slots, if_pos ⟨rfl, rfl⟩]
  · intro id denotes
    have free := denotes.2
    rw [opens.free] at free
    cases free
  · intro slot' before
    obtain ⟨id, used⟩ := Machine.freeSlot_least before
    exact ⟨id, alive, by rw [Machine.slotAt_channels, array, used]⟩
  · rw [opens.chans, Machine.setChan_chans, if_pos rfl]

theorem closer_deletes {h : Heap} (owned : h.Owned) {c : CoroId} {state : CoroState} {id : ChanId}
    (jump : h.machine.engine.jump = some (.coro c)) (closes : h.machine.Closes c state id) :
    ∃ q, h.step (.act .resume) = some q ∧ q.deleted = h.deleted ++ [id] := by
  have sound := Machine.reaches_sound owned.reached
  have closers := Machine.reaches_closers owned.reached
  obtain ⟨chan, there, -⟩ := sound.closing c state id closes
  have known : id < h.machine.opened := by
    by_contra large
    rw [sound.fresh id (Nat.not_lt.mp large)] at there
    cases there
  have alive : id ∉ h.deleted := by
    cases owned.accounted known with
    | inSlot _ _ _ _ alive => exact alive
    | closing _ _ _ _ _ alive => exact alive
    | deleted _ _ idle => exact absurd closes (idle c state)
  have arriving := Machine.arriving_eq jump closes
  have one : h.machine.toDelete .resume = [id] := by
    rw [Machine.toDelete, if_pos rfl, arriving]
    rfl
  have nothing : h.machine.reads .resume = none := by
    rw [Machine.reads, if_pos rfl, arriving]
    rfl
  obtain ⟨-, next, -, -, -, taken, -⟩ := sound.closerDeletes closers jump closes
  refine ⟨{ h with machine := next, deleted := h.deleted ++ [id] }, ?_, rfl⟩
  rw [step, if_pos, taken, one, Option.map_some]
  refine ⟨fun bus _ => by simp [nothing], fun id' mem => ?_⟩
  rw [one, List.mem_singleton] at mem
  exact mem ▸ alive

theorem delete_deletes {h : Heap} (owned : h.Owned) {bus : BusId} (alive : bus ∉ h.gone)
    (there : bus < h.machine.buses.length) (idle : h.machine.engine.jump = none) :
    ∃ q, h.step (.delete (some bus)) = some q ∧ q.gone = bus :: h.gone ∧
      q.deleted = h.deleted ++ (h.machine.channels bus).reduceOption := by
  have sound := Machine.reaches_sound owned.reached
  have array : h.machine.buses[bus]? = some (h.machine.channels bus) := by
    rw [Machine.channels, List.getElem?_eq_getElem there]
    rfl
  obtain ⟨deleted, all⟩ := deleteAll_defined (sound.channelsDistinct bus) fun id mem => by
    obtain ⟨slot, at_⟩ := Machine.mem_channels.mp mem
    exact (Denotes.isOpen owned ⟨alive, at_⟩).2
  refine ⟨{ h with gone := bus :: h.gone, deleted := deleted }, ?_, rfl, (deleteAll_eq all).1⟩
  rw [step, coroBusDelete, if_neg (by simp [idle, alive]), array]
  dsimp only
  rw [all, Option.map_some]

-- From its open to its close a descriptor denotes one channel, and no open returns it. An open
-- returns the lowest descriptor that denotes none, and the array is as long as the highest number
-- of channels that were open at once. Every channel is deleted once, by the coroutine that closed
-- it or with its bus.
theorem descriptors_kept {requests : List Request} {h : Heap}
    (run : Run.exec step init requests = some h) :
    (∀ bus slot id later q, h.Denotes bus slot id → Run.exec step h later = some q →
      (∀ request ∈ later, ¬request.Ends bus slot) →
      q.Denotes bus slot id ∧ h.machine.Continues q.machine id) ∧
    (∀ bus slot id, .opened bus slot id ∈ h.machine.log → (h.Open id ↔ h.Denotes bus slot id)) ∧
    (∀ bus slot id id', .opened bus slot id ∈ h.machine.log →
      .opened bus slot id' ∈ h.machine.log → h.Open id → h.Open id' → id = id') ∧
    (∀ bus sizeLimit q, h.step (.act (.open_ (some bus) sizeLimit)) = some q →
      ∃ slot, q.machine.log = h.machine.log ++ [.opened bus slot h.machine.opened] ∧
        q.Denotes bus slot h.machine.opened ∧ (∀ id, ¬h.Denotes bus slot id) ∧
        (∀ slot' < slot, ∃ id, h.Denotes bus slot' id) ∧ ∃ chan,
          q.machine.chans h.machine.opened = some chan ∧ chan.sizeLimit = sizeLimit ∧
            chan.data = []) ∧
    (∀ bus,
      (∀ front rest before, requests = front ++ rest → Run.exec step init front = some before →
        before.machine.openCount bus ≤ (h.machine.channels bus).length) ∧
      ∃ front rest before, requests = front ++ rest ∧ Run.exec step init front = some before ∧
        before.machine.openCount bus = (h.machine.channels bus).length) ∧
    (∀ id < h.machine.opened, h.Accounted id) ∧
    (∀ c state id, h.machine.engine.jump = some (.coro c) → h.machine.Closes c state id →
      ∃ q, h.step (.act .resume) = some q ∧ q.deleted = h.deleted ++ [id]) ∧
    (∀ bus, bus ∉ h.gone → bus < h.machine.buses.length → h.machine.engine.jump = none →
      ∃ q, h.step (.delete (some bus)) = some q ∧ q.gone = bus :: h.gone ∧
        q.deleted = h.deleted ++ (h.machine.channels bus).reduceOption) ∧
    ∀ bus slot id, .opened bus slot id ∈ h.machine.log → bus ∈ h.gone →
      (∀ c state, ¬h.machine.Closes c state id) → h.deleted.count id = 1 := by
  have owned := run_owned run
  have filed := Machine.reaches_filed owned.reached
  refine ⟨?_, ?_, ?_, ?_, ?_, fun id => owned.accounted, fun c state id => closer_deletes owned,
    fun bus => delete_deletes owned, ?_⟩
  · intro bus slot id later q denotes run' stays
    obtain ⟨denotes', fixed⟩ := run_denotes owned run' denotes stays
    exact ⟨denotes', run_continues owned run' fixed⟩
  · intro bus slot id event
    exact ⟨denotes_opened owned event, fun denotes => denotes.isOpen owned⟩
  · intro bus slot id id' event event' isOpen isOpen'
    have at_ := (denotes_opened owned event isOpen).2
    rw [(denotes_opened owned event' isOpen').2] at at_
    exact (Option.some.inj at_).symm
  · exact fun bus sizeLimit q => open_denotes
  · intro bus
    exact Run.exec_peak (fun state => List.reduceOption_length_le _)
      (fun _ _ _ owned taken => step_owned owned taken)
      (fun _ _ _ owned taken => step_grows owned taken bus) init_owned (by rfl) run
  · intro bus slot id event gone idle
    cases owned.accounted (filed.known bus slot id event) with
    | inSlot bus' slot' denotes =>
        obtain ⟨rfl, -⟩ := filed.once bus slot bus' slot' id event (filed.logged _ _ _ denotes.2)
        exact absurd gone denotes.1
    | closing c closes => exact absurd closes (idle c .running)
    | deleted once => exact once

def reopenRequests : List Request :=
  [.act .busNew, .act (.open_ (some 0) 1), .act (.open_ (some 0) 2), .act .new, .act .new,
    .act .run, .act .resume, .act (.close (some 0) 0), .act .resume, .act (.open_ (some 0) 3),
    .act .yield, .act .resume, .act .resume, .delete (some 0)]

theorem descriptors_kept_reopened : ∃ h, Run.exec step init reopenRequests = some h ∧
    h.deleted = [0, 2, 1] ∧ h.Accounted 2 ∧ ∃ front rest before,
      reopenRequests = front ++ rest ∧ Run.exec step init front = some before ∧
        before.machine.openCount 0 = 2 := by
  have run := (Option.some_get (show (Run.exec step init reopenRequests).isSome by decide)).symm
  obtain ⟨-, -, -, -, peak, accounted, -⟩ := descriptors_kept run
  exact ⟨_, run, rfl, accounted 2 (by decide), (peak 0).2⟩

end Heap

end SystemProg.Coroutine
