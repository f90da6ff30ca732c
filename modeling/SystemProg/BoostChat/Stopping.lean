import SystemProg.BoostChat.Server

set_option autoImplicit false

-- `priv_in_strand_stop` assigns the state that it has just tested, so nothing tells the handlers
-- behind it that the peer is closed. The next stop goes through the server pointer that the first
-- one has reset.

namespace SystemProg.BoostChat

namespace System

def reports (s : System) (p : PeerId) : Nat := s.posted.count (.server (.peerOnClose p))

-- The peer is stopped, its close has been reported once, and the handlers that test its state leave
-- everything as it is.
structure Stopped (p : PeerId) (s : System) : Prop where
  state : ∃ peer, s.peers p = some peer ∧ peer.state = .stopped
  reported : s.reports p = 1
  stop : s.handle (.peer p .stop) = some (.ok s)
  recv : s.handle (.peer p .recv) = some (.ok s)
  send : s.handle (.peer p .send) = some (.ok s)

def StopsForGood (p : PeerId) : System → List Action → Prop
  | _, [] => True
  | s, action :: rest => ∀ next, s.step action = some next →
      if action = .handle (.peer p .stop) then Run.Along step (Stopped p) next rest
      else StopsForGood p next rest

def closedPeer : Peer := { state := .connected, sockOpen := false, server := false }

inductive Stepped (s : System) (action : Action) (next : System) : Prop
  | plain (peers : next.peers = s.peers) (accepted : next.accepted = s.accepted)
      (reports : next.reports = s.reports)
  | connects (peers : next.peers = Function.update s.peers s.accepted (some chatServerPeer))
      (accepted : next.accepted = s.accepted + 1) (reports : next.reports = s.reports)
  | closes (p : PeerId) (peer : Peer) (there : s.peers p = some peer)
      (connected : peer.state = .connected) (server : peer.server = true)
      (peers : next.peers = Function.update s.peers p (some closedPeer))
      (accepted : next.accepted = s.accepted)
      (reports : next.reports = Function.update s.reports p (s.reports p + 1))

theorem post_reports (s : System) {handler : Handler}
    (other : ∀ p, handler ≠ .server (.peerOnClose p)) : (s.post handler).reports = s.reports := by
  funext p
  rw [reports, post, List.count_append, List.count_singleton, if_neg (by simpa using other p)]
  rfl

theorem posts_plain {posts : System → PeerId → System} (handler : PeerId → Handler)
    (posting : ∀ s p, posts s p = s.post (handler p))
    (other : ∀ q p, handler q ≠ .server (.peerOnClose p)) (s : System) (ps : List PeerId) :
    (ps.foldl posts s).peers = s.peers ∧ (ps.foldl posts s).accepted = s.accepted ∧
      (ps.foldl posts s).reports = s.reports := by
  induction ps generalizing s with
  | nil => exact ⟨rfl, rfl, rfl⟩
  | cons p ps ih =>
      obtain ⟨peers, accepted, reports⟩ := ih (posts s p)
      rw [List.foldl_cons, peers, accepted, reports, posting, post_reports s (other p)]
      exact ⟨rfl, rfl, rfl⟩

theorem peerHandle_stepped {s next : System} {p : PeerId} {peer : Peer} {handler : PeerHandler}
    (there : s.peers p = some peer) (run : s.peerHandle p peer handler = .ok next) :
    Stepped s (.handle (.peer p handler)) next := by
  have tested (run : s.inStrandUnlessStopped peer = .ok next) :
      Stepped s (.handle (.peer p handler)) next := by
    rw [inStrandUnlessStopped] at run
    split at run <;> cases run
    exact .plain rfl rfl rfl
  cases handler with
  | onNewFeed text => cases run
  | onRecv err size => cases run
  | onSend err size => cases run
  | recv => exact tested run
  | send => exact tested run
  | stop =>
      rw [peerHandle, peerInStrandStop] at run
      split at run
      · cases run
        exact .plain rfl rfl rfl
      next connected =>
      split at run
      · next server =>
          cases run
          refine .closes p peer there (not_not.mp connected) server rfl rfl ?_
          funext q
          change (s.posted ++ [Handler.server (.peerOnClose p)]).count _ = _
          rw [List.count_append, List.count_singleton, Function.update_apply]
          by_cases same : q = p
          · rw [same, if_pos rfl, if_pos (by simp)]
            rfl
          · rw [if_neg same, if_neg (by simpa using Ne.symm same)]
            rfl
      · cases run

theorem serverHandle_stepped {s next : System} {handler : ServerHandler}
    (run : s.serverHandle handler = .ok next) : Stepped s (.handle (.server handler)) next := by
  cases handler with
  | accept =>
      rw [serverHandle, inStrandAccept] at run
      split at run <;> cases run
      exact .plain rfl rfl rfl
  | onAccept err =>
      rw [serverHandle, inStrandOnAccept] at run
      split at run
      · cases run
        exact .plain rfl rfl rfl
      split at run
      · cases run
      rw [inStrandAccept] at run
      split at run <;> cases run
      exact .connects rfl rfl (post_reports _ (by simp))
  | stop =>
      cases run
      rw [serverInStrandStop]
      split
      · exact .plain rfl rfl rfl
      · obtain ⟨peers, accepted, reports⟩ :=
          posts_plain (.peer · .stop) (fun _ _ => rfl) (by simp) s s.server.peers
        exact .plain peers accepted reports
  | onNewRequest req =>
      cases run
      rw [inStrandOnNewRequest]
      split <;> exact .plain rfl rfl rfl
  | peerOnRecv msg =>
      cases run
      exact .plain rfl rfl rfl
  | peerOnClose p =>
      rw [serverHandle, inStrandPeerOnClose] at run
      split at run
      · cases run
        exact .plain rfl rfl rfl
      split at run <;> cases run
      exact .plain rfl rfl rfl
  | onNewFeed text =>
      cases run
      obtain ⟨peers, accepted, reports⟩ :=
        posts_plain (.peer · (.onNewFeed text)) (fun _ _ => rfl) (by simp) s s.server.peers
      exact .plain peers accepted reports

theorem step_stepped {s next : System} {action : Action} (taken : s.step action = some next) :
    Stepped s action next := by
  cases action with
  | start =>
      rw [step, start] at taken
      split at taken <;> cases taken
      exact .plain rfl rfl (post_reports _ (by simp))
  | stop | recvAsync req | feedAsync text =>
      cases taken
      exact .plain rfl rfl (post_reports s (by simp))
  | handle handler =>
      obtain ⟨result, run, ok⟩ := Option.bind_eq_some_iff.mp taken
      have ok : result = .ok next := by
        cases result <;> cases ok
        rfl
      subst ok
      cases handler with
      | peer p handler =>
          obtain ⟨peer, there, run⟩ := Option.map_eq_some_iff.mp run
          exact peerHandle_stepped there run
      | server handler => exact serverHandle_stepped (Option.some.inj run)

structure Linked (s : System) : Prop where
  fresh : ∀ p, s.accepted ≤ p → s.peers p = none
  unknown : ∀ p, s.peers p = none → s.reports p = 0
  connected : ∀ p peer, s.peers p = some peer → peer.state = .connected
  reported : ∀ p peer, s.peers p = some peer → s.reports p = if peer.server then 0 else 1

theorem init_linked : init.Linked := ⟨fun _ _ => rfl, fun _ _ => rfl, nofun, nofun⟩

theorem Stepped.linked {s next : System} {action : Action} (linked : s.Linked)
    (stepped : Stepped s action next) : next.Linked := by
  cases stepped with
  | plain peers accepted reports =>
      refine ⟨?_, ?_, ?_, ?_⟩
      · rw [peers, accepted]
        exact linked.fresh
      · rw [peers, reports]
        exact linked.unknown
      · rw [peers]
        exact linked.connected
      · rw [peers, reports]
        exact linked.reported
  | connects peers accepted reports =>
      have lookup (p : PeerId) : next.peers p =
          if p = s.accepted then some chatServerPeer else s.peers p := by
        rw [peers, Function.update_apply]
      have unreported := linked.unknown s.accepted (linked.fresh _ (Nat.le_refl _))
      refine ⟨fun p beyond => ?_, fun p gone => ?_, fun p peer there => ?_, fun p peer there => ?_⟩
      · rw [accepted] at beyond
        rw [lookup, if_neg (Nat.ne_of_gt beyond)]
        exact linked.fresh p (Nat.le_of_succ_le beyond)
      · rw [lookup] at gone
        split at gone
        · cases gone
        · rw [reports]
          exact linked.unknown p gone
      · rw [lookup] at there
        split at there
        · cases there
          rfl
        · exact linked.connected p peer there
      · rw [lookup] at there
        rw [reports]
        split at there
        · next same =>
            cases there
            rw [same]
            exact unreported
        · exact linked.reported p peer there
  | closes q old there connected server peers accepted reports =>
      have lookup (p : PeerId) : next.peers p = if p = q then some closedPeer else s.peers p := by
        rw [peers, Function.update_apply]
      have before := linked.reported q old there
      rw [if_pos server] at before
      have counted (p : PeerId) : next.reports p = if p = q then 1 else s.reports p := by
        rw [reports, Function.update_apply, before]
      refine ⟨fun p beyond => ?_, fun p gone => ?_, fun p peer here => ?_, fun p peer here => ?_⟩
      · rw [accepted] at beyond
        have free := linked.fresh p beyond
        rw [lookup, if_neg, free]
        rintro rfl
        rw [there] at free
        cases free
      · rw [lookup] at gone
        split at gone
        · cases gone
        · next other =>
            rw [counted, if_neg other]
            exact linked.unknown p gone
      · rw [lookup] at here
        split at here
        · cases here
          rfl
        · exact linked.connected p peer here
      · rw [lookup] at here
        rw [counted]
        split at here
        · next same =>
            cases here
            rw [if_pos same]
            rfl
        · next other =>
            rw [if_neg other]
            exact linked.reported p peer here

theorem reported_once {actions : List Action} {s : System}
    (run : Run.exec step init actions = some s) (p : PeerId) :
    s.reports p ≤ 1 ∧ (s.reports p = 1 → s.handle (.peer p .stop) = some (.error .nullServer)) := by
  have linked : s.Linked := Run.exec_invariant Linked
    (fun _ _ _ linked taken => (step_stepped taken).linked linked) init_linked run
  cases there : s.peers p with
  | none => simp [linked.unknown p there]
  | some peer =>
      have count := linked.reported p peer there
      rw [count]
      refine ⟨by split <;> omega, fun reported => ?_⟩
      have server : peer.server = false := by
        by_contra server
        rw [if_pos (by simpa using server)] at reported
        cases reported
      rw [handle, there, Option.map_some, peerHandle, peerInStrandStop,
        if_neg (not_not.mpr (linked.connected p peer there)), server, if_neg Bool.false_ne_true]

theorem stops_iff {p : PeerId} {s : System} (linked : s.Linked) (actions : List Action) :
    StopsForGood p s actions ↔
      Run.EachStep step (fun _ action => action ≠ .handle (.peer p .stop)) s actions := by
  induction actions generalizing s with
  | nil => exact Iff.rfl
  | cons action rest ih =>
      refine forall_congr' fun next => forall_congr' fun taken => ?_
      have later := (step_stepped taken).linked linked
      by_cases stops : action = .handle (.peer p .stop)
      · rw [if_pos stops]
        -- The peer is connected behind its first stop, as it was before.
        refine iff_of_false (fun along => ?_) (fun both => both.1 stops)
        obtain ⟨peer, there, stopped⟩ := along.first.state
        rw [later.connected p peer there] at stopped
        cases stopped
      · rw [if_neg stops, ih later]
        exact (and_iff_right stops).symm

theorem stops_for_good_iff (p : PeerId) (actions : List Action) :
    StopsForGood p init actions ↔
      Run.EachStep step (fun _ action => action ≠ .handle (.peer p .stop)) init actions :=
  stops_iff init_linked actions

def stoppedRun : List Action :=
  [.start, .handle (.server .accept), .handle (.server (.onAccept false)), .stop,
    .handle (.server .stop), .handle (.peer 0 .stop)]

theorem stop_leaves_connected :
    (∃ s, Run.exec step init stoppedRun = some s ∧ s.peers 0 = some closedPeer ∧
      closedPeer.state = .connected ∧ s.handle (.peer 0 .stop) = some (.error .nullServer) ∧
      s.handle (.peer 0 .recv) = some (.error .abort)) ∧
    ¬ ∀ p actions, StopsForGood p init actions := by
  constructor
  · exact ⟨_, (Option.some_get (show (Run.exec step init stoppedRun).isSome by decide)).symm,
      rfl, rfl, rfl, rfl⟩
  · intro holds
    have never := (stops_iff init_linked stoppedRun).mp (holds 0 stoppedRun)
    exact absurd never (by decide)

end System

end SystemProg.BoostChat
