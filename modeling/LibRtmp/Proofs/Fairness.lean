import Mathlib.Data.List.Rotate
import LibRtmp.Proofs.Bystanders
import LibRtmp.Proofs.RouteOwnership

namespace LibRtmp.Proofs

variable (codec : Codec) (input : PassInput)

def localQueues (s : Server) : List (List RelayFrame) :=
  ((s.connections.filter Server.relays).map Conn.pendingRelay).filter (fun q => !q.isEmpty)

/-- One publisher on each of the routes, and each frame on its publisher's route. -/
structure Crowd (routes : List RouteKey) (s : Server) : Prop where
  leads : (localQueues s).map (fun q => q.head?.map RelayFrame.route) = routes.map some
  own : ∀ q ∈ localQueues s, ∀ f ∈ q, some f.route = q.head?.map RelayFrame.route
  apart : routes.Nodup
  sockets : ∀ q ∈ localQueues s, ∀ f ∈ q, isExternalPublisherId f.publisherConnId = false
  orphaned : s.orphanedRelay = []
  injected : s.pendingInjectedRelay = []

section Batch

variable {routes : List RouteKey} {s : Server}

theorem Crowd.blocks (h : Crowd routes s) :
    List.Forall₂ (fun q r => q ≠ [] ∧ ∀ f ∈ q, RelayFrame.route f = r) (localQueues s) routes := by
  have hown := h.own
  have hleads := h.leads
  generalize localQueues s = queues at hown hleads
  clear h
  induction queues generalizing routes with
  | nil =>
    cases routes with
    | nil => exact .nil
    | cons r rs => cases hleads
  | cons q queues ih =>
    cases routes with
    | nil => cases hleads
    | cons r rs =>
      obtain ⟨hhead, htail⟩ := List.cons.inj hleads
      have hrest := ih (fun q hq => hown q (List.mem_cons_of_mem _ hq)) htail
      refine .cons ⟨?_, fun f hf => ?_⟩ hrest
      · rintro rfl
        cases hhead
      · have hf' := hown q List.mem_cons_self f hf
        exact Option.some.inj (hf'.trans hhead)

/-- Without injected frames the merge by route leaves the lead to the first local frame. -/
theorem head_merge_local {frames : List RelayFrame} (injectFirst : Bool)
    (h : ∀ f ∈ frames, isExternalPublisherId f.publisherConnId = false) :
    (mergeLocalAndInjectedByRoute frames [] injectFirst).head? = frames.head? := by
  unfold mergeLocalAndInjectedByRoute roundRobinRelayQueues
  rw [List.append_nil]
  have hnone : (RoundRobin.group RelayFrame.route frames).findIdx? (fun q =>
      q.head?.any (fun f => isExternalPublisherId f.publisherConnId)) = none := by
    rw [List.findIdx?_eq_none_iff]
    intro q hq
    cases q with
    | nil => rfl
    | cons f q => exact h f (RoundRobin.mem_of_group hq List.mem_cons_self)
  dsimp only
  rw [hnone, Option.getD_none, ite_self, RoundRobin.head_merge_group, RoundRobin.head_group_flatten]

/-- The route that leads a batch is the one the offset points to. -/
theorem Crowd.batch (h : Crowd routes s) {r : RouteKey}
    (hr : routes[s.relayLocalRrOffset % routes.length]? = some r) :
    (∃ f rest, s.buildRelayFrameBatch.1 = f :: rest ∧ f.route = r) ∧
      s.buildRelayFrameBatch.2.relayLocalRrOffset = (s.relayLocalRrOffset + 1) % 2 ^ 64 := by
  have hblocks := h.blocks
  have hlength := hblocks.length_eq
  have hempty : (localQueues s).isEmpty = false := by
    rw [List.isEmpty_eq_false_iff]
    intro hnil
    rw [hnil, List.length_nil] at hlength
    rw [List.eq_nil_of_length_eq_zero hlength.symm] at hr
    cases hr
  obtain ⟨q, hq, hne, hown⟩ := Rows.forall₂_row_back hblocks hr
  obtain ⟨f, q', rfl⟩ := List.exists_cons_of_ne_nil hne
  have hlocals : ∀ g ∈ roundRobinRelayQueues (localQueues s)
      (s.relayLocalRrOffset % (localQueues s).length),
      isExternalPublisherId g.publisherConnId = false := by
    intro g hg
    obtain ⟨o, ho, hgo⟩ := RoundRobin.mem_merge hg
    rw [RoundRobin.group_blocks hblocks h.apart] at ho
    exact h.sockets o ho g hgo
  have hhead : (roundRobinRelayQueues (localQueues s)
      (s.relayLocalRrOffset % (localQueues s).length)).head? = some f := by
    unfold roundRobinRelayQueues
    rw [RoundRobin.group_blocks hblocks h.apart, hlength]
    exact RoundRobin.head_merge hq
  have hbatch : s.buildRelayFrameBatch.1.head? = some f := by
    have heq : s.buildRelayFrameBatch.1 = mergeLocalAndInjectedByRoute
        (s.orphanedRelay ++ roundRobinRelayQueues (localQueues s)
          (if (localQueues s).isEmpty then 0
            else s.relayLocalRrOffset % (localQueues s).length))
        s.pendingInjectedRelay s.relayInterleaveInjectFirst := rfl
    rw [heq, h.orphaned, h.injected, hempty, List.nil_append, if_neg Bool.false_ne_true,
      head_merge_local _ hlocals, hhead]
  refine ⟨?_, ?_⟩
  · cases hb : s.buildRelayFrameBatch.1 with
    | nil =>
      rw [hb] at hbatch
      cases hbatch
    | cons g rest =>
      rw [hb] at hbatch
      cases hbatch
      exact ⟨f, rest, rfl, hown f List.mem_cons_self⟩
  · have heq : s.buildRelayFrameBatch.2.relayLocalRrOffset =
        if (localQueues s).isEmpty then s.relayLocalRrOffset
        else (s.relayLocalRrOffset + 1) % 2 ^ 64 := rfl
    rw [heq, hempty, if_neg Bool.false_ne_true]

end Batch

section Players

def uncongested (limits : PlayerFlowLimits) (c : Conn) : Bool :=
  limits.soft == 0 || (c.relayCongestion.isNone &&
    decide (c.sendBuffer.available + c.stagedMediaBytes ≤ limits.soft))

variable {limits : PlayerFlowLimits} {now : Nat} {delivery : FrameDelivery} {i frameIndex : Nat}
  {c d : Conn} {frame : RelayFrame} {staged staged' : StagedRelayMedia}

theorem flow_not_skipped (h : uncongested limits c = true) (hint : DeliveryHint) :
    (playerFlowDecision limits c hint (c.sendBuffer.available + c.stagedMediaBytes) now).1 ≠
      .skip := by
  unfold uncongested at h
  unfold playerFlowDecision
  split
  · simp
  · split
    · simp
    · rename_i hfree
      rw [not_or] at hfree
      rw [Bool.or_eq_true, Bool.and_eq_true] at h
      obtain ⟨hnone, hroom⟩ := h.resolve_left (by simpa using hfree.1)
      rw [Option.isNone_iff_eq_none.mp hnone]
      dsimp only
      rw [if_pos (of_decide_eq_true hroom)]
      simp

theorem flow_transport (hint : DeliveryHint) (backlog : Nat) :
    (playerFlowDecision limits c hint backlog now).2.transport = c.transport := by
  unfold playerFlowDecision
  repeat' split
  all_goals rfl

theorem deliver_transport :
    (deliverFrame i c frameIndex frame staged).2.1.transport = c.transport := by
  unfold deliverFrame Conn.stageEncodedMediaBody Conn.sendEncodedMediaBody
  generalize staged.bodyFor frameIndex frame c.mediaChunkSize = r
  obtain ⟨body, staged⟩ := r
  cases body with
  | none => rfl
  | some body =>
    dsimp only
    split
    · cases c.mediaOutHeaders.choose c.compactMediaHeaders frame.frameType c.mediaStreamId
        frame.timestamp frame.payload.length with
      | error e => rfl
      | ok header =>
        dsimp only
        generalize (reserveRoom header.encodedLen >>= fun _ => header.write).on staged.headers = w
        obtain ⟨w, headers⟩ := w
        cases w <;> rfl
    · generalize (writeMediaMessageWithBody c.mediaOutHeaders c.compactMediaHeaders
        ⟨frame.frameType, c.mediaStreamId, frame.timestamp⟩ frame.payload.length _).on
        c.sendBuffer = w
      obtain ⟨w, out⟩ := w
      cases w <;> rfl

/-- A player that is not behind and does not close gets the frame and stays connected. -/
theorem uncongested_delivered (h : uncongested limits c = true)
    (hopen : (relayFrameToPlayer limits now delivery i c frameIndex frame staged).1 ≠
        .deliveryFailed ∧
      (relayFrameToPlayer limits now delivery i c frameIndex frame staged).1 ≠ .dropped) :
    (relayFrameToPlayer limits now delivery i c frameIndex frame staged).1 = .delivered ∧
      (relayFrameToPlayer limits now delivery i c frameIndex frame staged).2.1.transport =
        c.transport := by
  unfold relayFrameToPlayer at hopen ⊢
  dsimp only at hopen ⊢
  have hskip : (playerFlowDecision limits c (delivery.forPlayer c)
      (c.sendBuffer.available + c.stagedMediaBytes) now).1 ≠ .skip := flow_not_skipped h _
  have htransport : (playerFlowDecision limits c (delivery.forPlayer c)
      (c.sendBuffer.available + c.stagedMediaBytes) now).2.transport = c.transport :=
    flow_transport _ _
  generalize playerFlowDecision limits c (delivery.forPlayer c)
    (c.sendBuffer.available + c.stagedMediaBytes) now = r at hopen hskip htransport
  obtain ⟨flow, d⟩ := r
  cases flow with
  | skip => exact absurd rfl hskip
  | disconnect => exact absurd rfl hopen.2
  | send =>
    dsimp only at hopen htransport ⊢
    have hdeliver : (deliverFrame i d frameIndex frame staged).2.1.transport = d.transport :=
      deliver_transport
    generalize deliverFrame i d frameIndex frame staged = w at hopen hdeliver
    obtain ⟨w, e, staged⟩ := w
    cases w with
    | error _ => exact absurd rfl hopen.1
    | ok _ => exact ⟨rfl, hdeliver.trans htransport⟩

/-- What a player is offered does not depend on its output. -/
theorem aside_receives (ha : Aside c d) (ht : d.transport = c.transport)
    (h : connWillReceiveRelayFrame codec c frame = true) :
    connWillReceiveRelayFrame codec d frame = true := by
  have happ : d.app = c.app := congrArg Ledger.app (ha.unseen ∅)
  have hwaiting : d.pendingAuth = c.pendingAuth := congrArg Ledger.waiting (ha.unseen ∅)
  have hkey : d.relayRouteKey = c.relayRouteKey := by
    unfold Conn.relayRouteKey
    rw [ha.relayKey, ha.stream]
  have hmulti : d.acceptsMultitrack = c.acceptsMultitrack := by
    unfold Conn.acceptsMultitrack
    rw [ha.caps]
  have henabled : d.relayEnabled = c.relayEnabled := by
    rcases ha.waits with hgone | ⟨hsame, _⟩
    · rw [ht] at hgone
      unfold connWillReceiveRelayFrame at h
      split at h
      · cases h
      · simp [hgone] at h
    · exact hsame
  unfold connWillReceiveRelayFrame at h ⊢
  rw [ha.stream, henabled, ht, happ, hkey, hwaiting, hmulti]
  exact h

end Players

theorem handled_append (events more : List ServerEvent) :
    handledFrames (events ++ more) = handledFrames events ++ handledFrames more :=
  List.flatMap_append

theorem handled_none {events : List ServerEvent} (h : ∀ e ∈ events, e.relayed = []) :
    handledFrames events = [] :=
  List.flatMap_eq_nil_iff.mpr h

section Loop

variable {cfg : CacheConfig} {settings : ServerSettings} {now : Nat} {abandoned : List Abandoned}
  {frame : RelayFrame} {r : Relaying} {i : Nat} {c : Conn}

/-- A frame whose one player is not behind and does not close counts as one send. -/
theorem handle_one (hc : r.fanout.connections[i]? = some c)
    (hu : uncongested settings.limits c = true)
    (hopen : (r.handle cfg settings now abandoned frame [i]).fanout.closed = []) :
    ∃ d, Aside c d ∧ d.transport = c.transport ∧
      (r.handle cfg settings now abandoned frame [i]).fanout.connections =
        r.fanout.connections.set i d ∧
      (r.handle cfg settings now abandoned frame [i]).relaySends = r.relaySends + 1 ∧
      handledFrames (r.handle cfg settings now abandoned frame [i]).trace =
        handledFrames r.trace ++ [frame] := by
  unfold Relaying.handle Fanout.frame at hopen ⊢
  dsimp only [List.foldl_cons, List.foldl_nil] at hopen ⊢
  generalize (if [i].isEmpty = true ∨ settings.limits.soft = 0 then FrameDelivery.always
    else frameDelivery cfg.codec _ frame) = delivery at hopen ⊢
  unfold Fanout.offer at hopen ⊢
  rw [hc] at hopen ⊢
  dsimp only at hopen ⊢
  have haside := relay_to_player_aside settings.limits now delivery i c r.frameIndex frame
    r.fanout.staged
  have hsent : (relayFrameToPlayer settings.limits now delivery i c r.frameIndex frame
      r.fanout.staged).1 ≠ .deliveryFailed ∧
      (relayFrameToPlayer settings.limits now delivery i c r.frameIndex frame
        r.fanout.staged).1 ≠ .dropped → _ := uncongested_delivered hu
  generalize relayFrameToPlayer settings.limits now delivery i c r.frameIndex frame
    r.fanout.staged = w at hopen haside hsent
  obtain ⟨outcome, d, staged⟩ := w
  dsimp only at hopen haside hsent
  have hstays : outcome ≠ .deliveryFailed ∧ outcome ≠ .dropped := by
    split at hopen
    · simp at hopen
    · rename_i hnone
      exact not_or.mp hnone
  obtain ⟨rfl, htransport⟩ := hsent hstays
  refine ⟨d, haside, htransport, rfl, ?_, ?_⟩
  · simp
  · rw [handled_append]
    refine congrArg (handledFrames r.trace ++ ·) (congrArg (frame :: ·) (handled_none fun e he => ?_))
    obtain ⟨report, _, hsome⟩ := List.mem_filterMap.mp he
    split at hsome
    · obtain ⟨_, _, rfl⟩ := Option.map_eq_some_iff.mp hsome
      rfl
    · cases hsome

/-- A budget of one send goes to the frame that leads the batch. -/
theorem run_one {rest : List RelayFrame} (hbudget : settings.maxRelaySendsPerPoll = 1)
    (hnone : r.relaySends = 0) (hplayers : relayPlayers cfg.codec r.fanout.connections frame = [i])
    (hc : r.fanout.connections[i]? = some c) (hu : uncongested settings.limits c = true)
    (hnext : ∀ g ∈ rest, relayPlayers cfg.codec r.fanout.connections g ≠ [])
    (hopen : (Relaying.run cfg settings now abandoned (frame :: rest) r).1.fanout.closed = []) :
    handledFrames (Relaying.run cfg settings now abandoned (frame :: rest) r).1.trace =
      handledFrames r.trace ++ [frame] := by
  unfold Relaying.run at hopen ⊢
  dsimp only at hopen ⊢
  rw [hplayers, hnone, if_neg (by simp)] at hopen ⊢
  have hfirst : (r.handle cfg settings now abandoned frame [i]).fanout.closed = [] := by
    refine List.eq_nil_iff_forall_not_mem.mpr fun a ha => ?_
    have hmem : a ∈ (Relaying.run cfg settings now abandoned rest
        (r.handle cfg settings now abandoned frame [i])).1.fanout.closed :=
      relaying_closed cfg settings now abandoned rest _ ha
    rw [hopen] at hmem
    cases hmem
  obtain ⟨d, haside, htransport, hconns, hsends, htrace⟩ := handle_one hc hu hfirst
  generalize r.handle cfg settings now abandoned frame [i] = r' at hconns hsends htrace hopen ⊢
  cases rest with
  | nil => exact htrace
  | cons g rest =>
    have hplayer : relayPlayers cfg.codec r'.fanout.connections g ≠ [] := by
      obtain ⟨j, hj⟩ := List.exists_mem_of_ne_nil _ (hnext g List.mem_cons_self)
      obtain ⟨e, he, hreceives⟩ := relay_players_receive hj
      by_cases hij : j = i
      · subst hij
        rw [hc] at he
        cases he
        have hlt := (List.getElem?_eq_some_iff.mp hc).1
        have hd : r'.fanout.connections[j]? = some d := by
          rw [hconns, List.getElem?_set_self hlt]
        exact List.ne_nil_of_mem (mem_relay_players hd
          (aside_receives cfg.codec haside htransport hreceives))
      · have he' : r'.fanout.connections[j]? = some e := by
          rw [hconns, List.getElem?_set_ne (Ne.symm hij)]
          exact he
        exact List.ne_nil_of_mem (mem_relay_players he' hreceives)
    have hover : satAdd r'.relaySends (relayPlayers cfg.codec r'.fanout.connections g).length >
        settings.maxRelaySendsPerPoll := by
      have hlen := List.length_pos_iff.mpr hplayer
      rw [hsends, hnone, hbudget]
      unfold satAdd usizeMax
      omega
    unfold Relaying.run
    dsimp only
    rw [if_pos ⟨hplayer, by omega, hover⟩]
    exact htrace

end Loop

structure Idles (p q : Pass) : Prop where
  offset : q.server.relayLocalRrOffset = p.server.relayLocalRrOffset
  handled : handledFrames q.trace = handledFrames p.trace

section Idling

variable {p q : Pass}

theorem Idles.refl (p : Pass) : Idles p p := ⟨rfl, rfl⟩

theorem Idles.trans {u : Pass} (h : Idles p q) (h' : Idles q u) : Idles p u :=
  ⟨h'.offset.trans h.offset, h'.handled.trans h.handled⟩

theorem idles_loop {f : Pass → Nat → Pass} (h : ∀ p i, Idles p (f p i)) (l : List Nat)
    (p : Pass) : Idles p (l.foldl f p) :=
  Rows.foldl_rel Idles.refl .trans h l p

theorem idles_events {events : List ServerEvent} (ho : q.server.relayLocalRrOffset =
    p.server.relayLocalRrOffset) (ht : q.trace = p.trace ++ events)
    (h : ∀ e ∈ events, e.relayed = []) : Idles p q := by
  refine ⟨ho, ?_⟩
  rw [ht, handled_append, handled_none h, List.append_nil]

theorem perform_relayed (act : ConnAct) (s : Session) :
    ∀ e ∈ (s.perform codec act).2.2, e.relayed = [] := by
  unfold Session.perform
  generalize Actions.Action.on (act.action codec) s = r
  obtain ⟨r, t⟩ := r
  intro e he
  rw [List.mem_singleton.mp he]
  rfl

theorem receive_relayed (events : List Inbound) (s : Session) :
    ∀ e ∈ (s.receive codec events).2.2, e.relayed = [] := by
  induction events generalizing s with
  | nil => simp [Session.receive]
  | cons event events ih =>
    unfold Session.receive
    have hfirst := perform_relayed codec (.inbound event) s
    generalize s.perform codec (.inbound event) = r at hfirst
    obtain ⟨r, t, trace⟩ := r
    cases r with
    | error _ => exact hfirst
    | ok _ =>
      intro e he
      exact (List.mem_append.mp he).elim (hfirst e) (ih t e)

theorem replayed_relayed (c : Conn) (frames : List InitFrame) :
    ∀ e ∈ c.replayed frames, e.relayed = [] := by
  intro e he
  obtain ⟨f, _, rfl⟩ := List.mem_map.mp he
  rfl

theorem reap_idles (p : Pass) :
    Idles p (p.reapTimedOutPendingAuth codec input) := by
  refine idles_loop (fun p i => ?_) _ p
  unfold Pass.reapOne
  split
  · exact .refl p
  · rename_i c _
    have hevents := perform_relayed codec
      (.reap (input.conns c.connId).now p.server.settings.pendingAuthTimeout)
      ⟨c, p.server.activePublishRoutes⟩
    dsimp only
    generalize Session.perform codec
      (.reap (input.conns c.connId).now p.server.settings.pendingAuthTimeout)
      ⟨c, p.server.activePublishRoutes⟩ = r at hevents
    obtain ⟨r, t, trace⟩ := r
    dsimp only at hevents ⊢
    split <;> exact idles_events rfl rfl hevents

theorem drain_idles (p : Pass) : Idles p p.drain.2 := by
  refine idles_events (drain_same_part offset_bystander ([], p.server) _) rfl fun e he => ?_
  obtain ⟨k, _, rfl⟩ := List.mem_map.mp he
  rfl

theorem receive_one_relayed (input : ConnInput) (s : Session) :
    ∀ e ∈ (Pass.receiveOne codec input s).2.2, e.relayed = [] := by
  unfold Pass.receiveOne
  split
  · simp
  · split
    · simp
    · exact receive_relayed codec input.events s

theorem recv_idles (p : Pass) :
    Idles p (p.recvAndReapConnections codec input) := by
  refine idles_loop (fun p i => ?_) _ p
  unfold Pass.recvAndReapOne
  split
  · exact .refl p
  · rename_i c _
    dsimp only
    have hevents := receive_one_relayed codec (input.conns c.connId)
      ⟨c, p.server.activePublishRoutes⟩
    generalize Pass.receiveOne codec (input.conns c.connId) ⟨c, p.server.activePublishRoutes⟩ = r
      at hevents
    obtain ⟨closes, t, trace⟩ := r
    dsimp only at hevents ⊢
    generalize t.conn.rearmDeferredInitReplay (input.conns c.connId).now = d
    generalize (if (!closes && !(p.evictionsQueued || !t.conn.pendingCacheEvictions.isEmpty) &&
        d.needsInitFrames) = true then
      Pass.replayAtOnce codec p.server.cache (input.conns c.connId).replaySocket d
      else (false, d, [])) = w
    obtain ⟨fails, d, sent⟩ := w
    refine idles_events rfl (List.append_assoc _ _ _) fun e he => ?_
    exact (List.mem_append.mp he).elim (hevents e) (replayed_relayed d sent e)

theorem detach_idles (p : Pass) :
    Idles p (p.detachDisplacedRouteOwners codec) := by
  refine idles_loop (fun p i => ?_) _ p
  unfold Pass.detachOne
  split
  · exact .refl p
  · rename_i c _
    split
    · exact .refl p
    · have hevents := perform_relayed codec .detach ⟨c, p.server.activePublishRoutes⟩
      generalize Session.perform codec .detach ⟨c, p.server.activePublishRoutes⟩ = r at hevents
      obtain ⟨r, t, trace⟩ := r
      exact idles_events rfl rfl hevents

/-- Nothing is handled before the relay phase. -/
theorem receive_phase_idles (cfg : CacheConfig) (input : PassInput) (s : Server) :
    Idles { server := s } (Pass.receivePhase cfg input s).2 := by
  have hreap := (reap_idles cfg.codec input { server := s }).trans (drain_idles _)
  unfold Pass.receivePhase Pass.reapAndReceive
  dsimp only
  generalize ((Pass.reapTimedOutPendingAuth cfg.codec input { server := s }).drain).2 = q at hreap ⊢
  have hstale : Idles q { q with
      server := q.server.reapStaleInjectRoutes input.now
      trace := q.trace ++ (q.server.staleInjectRoutes input.now).map ServerEvent.released } := by
    refine idles_events (release_same_part offset_bystander _ q.server) rfl fun e he => ?_
    obtain ⟨k, _, rfl⟩ := List.mem_map.mp he
    rfl
  exact (((hreap.trans hstale).trans (recv_idles cfg.codec input _)).trans (drain_idles _)).trans
    (detach_idles cfg.codec _)

theorem replay_idles (p : Pass) :
    Idles p (p.replayInitFramesForNewPlayers codec) := by
  refine idles_loop (fun p i => ?_) _ p
  unfold Pass.replayOne
  split
  · exact .refl p
  · rename_i c _
    generalize c.replayInitFrames codec p.server.cache = w
    obtain ⟨failed, d, sent⟩ := w
    exact idles_events rfl rfl (replayed_relayed d sent)

theorem flush_idles (p : Pass) : Idles p (p.flushConnections input) := by
  refine idles_loop (fun p i => ?_) _ p
  unfold Pass.flushOne
  split
  · exact .refl p
  · exact ⟨rfl, rfl⟩

theorem remove_idles (p : Pass) : Idles p p.removeClosedConnections := by
  refine idles_loop (fun p i => ?_) _ p
  unfold Pass.removeOne
  split
  · exact .refl p
  · rename_i c _
    obtain ⟨orphaned, heq⟩ := push_orphans_same
      (c.pendingRelay.filter (fun f => !isExternalPublisherId f.publisherConnId)) p.server
    unfold Server.releaseAllPublishRoutes
    dsimp only
    rw [heq]
    exact idles_events rfl rfl (by simp [ServerEvent.relayed])

end Idling

section Polls

variable {cfg : CacheConfig} {routes : List RouteKey} {s : Server}

def atBatch (cfg : CacheConfig) (input : PassInput) (s : Server) : Server :=
  ((Pass.receivePhase cfg input s).2.beforeBatch (Pass.receivePhase cfg input s).1).2.server

def atFanout (cfg : CacheConfig) (input : PassInput) (s : Server) : List RelayFrame × Server :=
  let start := (Pass.receivePhase cfg input s).2.beforeFanout cfg (Pass.receivePhase cfg input s).1
  (start.2.1, start.2.2.server)

def closesIn (cfg : CacheConfig) (input : PassInput) (s : Server) : List Nat :=
  (Pass.relayPhase cfg input (Pass.receivePhase cfg input s).1
    (Pass.receivePhase cfg input s).2).closed

/-- Each publisher has frames waiting and one player that is not behind, and nobody closes. -/
structure Tight (cfg : CacheConfig) (routes : List RouteKey) (input : PassInput) (s : Server) :
    Prop where
  crowd : Crowd routes (atBatch cfg input s)
  budget : (atFanout cfg input s).2.settings.maxRelaySendsPerPoll = 1
  single : ∀ f ∈ (atFanout cfg input s).1,
    (relayPlayers cfg.codec (atFanout cfg input s).2.connections f).length = 1
  able : ∀ f ∈ (atFanout cfg input s).1,
    ∀ i ∈ relayPlayers cfg.codec (atFanout cfg input s).2.connections f,
    (atFanout cfg input s).2.connections[i]?.all
      (uncongested (atFanout cfg input s).2.settings.limits) = true
  stays : closesIn cfg input s = []

/-- What the fan-out leaves of a pass. -/
theorem send_export_spec (cfg : CacheConfig) (input : PassInput) (abandoned : List Abandoned)
    (frames : List RelayFrame) (p : Pass) :
    (p.sendAndExportRelayFrames cfg input abandoned frames).trace =
        p.trace ++ (p.fanout cfg input abandoned frames).1.trace ∧
      (p.fanout cfg input abandoned frames).1.fanout.closed ⊆
        (p.sendAndExportRelayFrames cfg input abandoned frames).closed ∧
      (p.sendAndExportRelayFrames cfg input abandoned frames).server.relayLocalRrOffset =
        p.server.relayLocalRrOffset :=
  ⟨rfl, staged_closed _ _ _ _, requeue_same_part offset_bystander _ _⟩

/-- A pass is its receiving, its batch, its fan-out and its clean-up. -/
theorem pass_unfold (cfg : CacheConfig) (input : PassInput) (first : List Abandoned) (p : Pass) :
    p.relayPhase cfg input first =
      Pass.flushConnections input ((p.beforeFanout cfg first).2.2.sendAndExportRelayFrames cfg input
        (p.beforeFanout cfg first).1 (p.beforeFanout cfg first).2.1) := rfl

/-- Taking the batch is all a pass does to the rotation of the local queues. -/
theorem fanout_offset (cfg : CacheConfig) (first : List Abandoned) (p : Pass) :
    (p.beforeFanout cfg first).2.2.server.relayLocalRrOffset =
      (p.beforeBatch first).2.server.buildRelayFrameBatch.2.relayLocalRrOffset :=
  (replay_idles cfg.codec _).offset

theorem batch_idles (first : List Abandoned) (p : Pass) : Idles p (p.beforeBatch first).2 :=
  ⟨(drain_idles p).offset, (drain_idles p).handled⟩

theorem fanout_handled (cfg : CacheConfig) (first : List Abandoned) (p : Pass) :
    handledFrames (p.beforeFanout cfg first).2.2.trace = handledFrames p.trace :=
  (replay_idles cfg.codec _).handled.trans (batch_idles first p).handled

/-- A fan-out with one send to make handles the first frame of its batch and no other. -/
theorem fanout_one {input : PassInput} {abandoned : List Abandoned} {f : RelayFrame}
    {rest : List RelayFrame} {p : Pass} (hsends : input.relaySends = 0)
    (hbudget : p.server.settings.maxRelaySendsPerPoll = 1)
    (hsingle : ∀ g ∈ f :: rest, (relayPlayers cfg.codec p.server.connections g).length = 1)
    (hable : ∀ g ∈ f :: rest, ∀ i ∈ relayPlayers cfg.codec p.server.connections g,
      p.server.connections[i]?.all (uncongested p.server.settings.limits) = true)
    (hopen : (p.fanout cfg input abandoned (f :: rest)).1.fanout.closed = []) :
    handledFrames (p.fanout cfg input abandoned (f :: rest)).1.trace = [f] := by
  obtain ⟨i, hi⟩ := List.length_eq_one_iff.mp (hsingle f List.mem_cons_self)
  have hmem : i ∈ relayPlayers cfg.codec p.server.connections f := hi ▸ List.mem_singleton_self i
  have hlt : i < p.server.connections.length :=
    List.mem_range.mp (List.mem_filter.mp hmem).1
  have hc : p.server.connections[i]? = some p.server.connections[i] := List.getElem?_eq_getElem hlt
  have hu := hable f List.mem_cons_self i hmem
  rw [hc] at hu
  refine run_one hbudget hsends hi hc hu (fun g hg hnone => ?_) hopen
  have hone := hsingle g (List.mem_cons_of_mem f hg)
  rw [hnone] at hone
  cases hone

/-- A tight pass handles one frame, of the route whose turn it is, and moves the turn on. -/
theorem tight_pass {input : PassInput} {route : RouteKey} (h : Tight cfg routes input s)
    (hsends : input.relaySends = 0)
    (hturn : routes[s.relayLocalRrOffset % routes.length]? = some route) :
    (∃ f, f.route = route ∧ handledFrames (processConnections cfg input s).trace = [f]) ∧
      (processConnections cfg input s).server.relayLocalRrOffset =
        (s.relayLocalRrOffset + 1) % 2 ^ 64 := by
  have hreceived := receive_phase_idles cfg input s
  obtain ⟨hcrowd, hbudget, hsingle, hable, hstays⟩ := h
  unfold processConnections
  unfold atBatch at hcrowd
  unfold atFanout at hbudget hsingle hable
  unfold closesIn at hstays
  generalize Pass.receivePhase cfg input s = received at *
  obtain ⟨first, p⟩ := received
  dsimp only at *
  have hoffset : (p.beforeBatch first).2.server.relayLocalRrOffset = s.relayLocalRrOffset :=
    (batch_idles first p).offset.trans hreceived.offset
  rw [← hoffset] at hturn ⊢
  obtain ⟨⟨f, rest, hbatch, hroute⟩, hmoved⟩ := hcrowd.batch hturn
  have hframes : (p.beforeFanout cfg first).2.1 = f :: rest := hbatch
  have hclean := remove_idles (p.relayPhase cfg input first)
  have hbefore := fanout_handled cfg first p
  have hrotated := (fanout_offset cfg first p).trans hmoved
  rw [pass_unfold] at hstays hclean ⊢
  generalize p.beforeFanout cfg first = start at *
  obtain ⟨abandoned, frames, q⟩ := start
  dsimp only at *
  subst hframes
  obtain ⟨htrace, hclosed, hkept⟩ := send_export_spec cfg input abandoned (f :: rest) q
  have hflushed : (q.sendAndExportRelayFrames cfg input abandoned (f :: rest)).closed ⊆
      (Pass.flushConnections input
        (q.sendAndExportRelayFrames cfg input abandoned (f :: rest))).closed :=
    Rows.foldl_subset Pass.closed (flush_one_closed input) _ _
  rw [hstays] at hflushed
  have hopen := List.subset_nil.mp (List.Subset.trans hclosed hflushed)
  have hidle := (flush_idles input (q.sendAndExportRelayFrames cfg input abandoned
    (f :: rest))).trans hclean
  refine ⟨⟨f, hroute, ?_⟩, hidle.offset.trans (hkept.trans hrotated)⟩
  rw [hidle.handled, htrace, handled_append, hbefore, hreceived.handled,
    fanout_one hsends hbudget hsingle hable hopen]
  rfl

def runsPass : ServerOp → Bool
  | .pass _ => true
  | .poll _ => true
  | _ => false

theorem act_on_offset (s : Server) (connId : Nat) (act : ConnAct)
    (followUp : Conn → Conn × List InitFrame) :
    (s.actOn codec connId act followUp).1.relayLocalRrOffset = s.relayLocalRrOffset ∧
      ∀ e ∈ (s.actOn codec connId act followUp).2, e.relayed = [] := by
  unfold Server.actOn
  split
  · exact ⟨rfl, by simp⟩
  · split
    · exact ⟨rfl, by simp⟩
    · rename_i c _
      have hevents := perform_relayed codec act ⟨c, s.activePublishRoutes⟩
      generalize Session.perform codec act ⟨c, s.activePublishRoutes⟩ = r at hevents
      obtain ⟨r | r, t, trace⟩ := r
      · exact ⟨rfl, hevents⟩
      · refine ⟨rfl, fun e he => ?_⟩
        rcases List.mem_append.mp he with he | he
        · exact hevents e he
        · exact replayed_relayed _ _ e he

theorem add_same (now : Nat) (transport : Transport) (fd : Nat) (s : Server) :
    (s.addConnection now transport fd).relayLocalRrOffset = s.relayLocalRrOffset := by
  unfold Server.addConnection
  dsimp only
  split <;> rfl

theorem tune_conn_offset (connId : Nat) (f : Conn → Conn) :
    (s.tuneConn connId f).relayLocalRrOffset = s.relayLocalRrOffset := by
  unfold Server.tuneConn
  split <;> rfl

/-- Without a pass the turn does not move and nothing is handled. -/
theorem exec_idle (cfg : CacheConfig) (s : Server) {op : ServerOp} (h : runsPass op = false) :
    (op.exec cfg s).1.relayLocalRrOffset = s.relayLocalRrOffset ∧
      handledFrames (op.exec cfg s).2 = [] := by
  cases op with
  | pass input => cases h
  | poll input => cases h
  | accept now transport fd => exact ⟨(add_same now transport fd s), rfl⟩
  | complete connId host role requestId allow socket =>
    have hact := act_on_offset cfg.codec s connId (.complete host role requestId allow)
      (Server.afterCompletion cfg.codec s.cache role socket)
    exact ⟨hact.1, handled_none hact.2⟩
  | inject now route frameType timestamp payload =>
    unfold ServerOp.exec
    dsimp only
    split
    · exact ⟨rfl, rfl⟩
    · rename_i t ht
      refine ⟨?_, handled_none fun e he => ?_⟩
      · obtain ⟨id, u, hclaim, rfl⟩ := inject_spec ht
        obtain ⟨_, _, _, rfl⟩ := claim_same hclaim
        rfl
      · obtain ⟨f, _, rfl⟩ := List.mem_map.mp he
        rfl
  | connInject connId host frameType timestamp payload =>
    have hact := act_on_offset cfg.codec s connId (.inject host frameType timestamp payload)
      (fun c => (c, []))
    exact ⟨hact.1, handled_none hact.2⟩
  | releaseInjected route =>
    refine ⟨release_same_part offset_bystander [route] s, handled_none fun e he => ?_⟩
    unfold ServerOp.exec at he
    dsimp only at he
    split at he
    · cases List.mem_singleton.mp he
      rfl
    · cases he
  | releaseAllInjected =>
    refine ⟨release_same_part offset_bystander s.injectedRoutes s, handled_none fun e he => ?_⟩
    obtain ⟨k, _, rfl⟩ := List.mem_map.mp he
    rfl
  | setRelayKey connId relayKey => exact ⟨tune_conn_offset connId _, rfl⟩
  | setRelayEnabled connId enabled => exact ⟨tune_conn_offset connId _, rfl⟩
  | tune settings => exact ⟨rfl, rfl⟩
  | stop =>
    refine ⟨?_, rfl⟩
    obtain ⟨routes, heq, _⟩ := release_every s.connections s
    unfold ServerOp.exec Server.stop Server.releaseAllInjectedRoutes
    dsimp only
    rw [heq]
    exact release_same_part offset_bystander _ _

def Along (cfg : CacheConfig) (P : Server → ServerOp → Prop) : Server → List ServerOp → Prop
  | _, [] => True
  | s, op :: ops => P s op ∧ Along cfg P (op.exec cfg s).1 ops

def isPoll : ServerOp → Bool
  | .poll _ => true
  | _ => false

/-- A step of a server whose publishers share one send: its polls are tight. -/
def Shares (cfg : CacheConfig) (routes : List RouteKey) (s : Server) : ServerOp → Prop
  | .poll input => Tight cfg routes { input.first with relaySends := 0 } s
  | .pass _ => False
  | _ => True

def acceptsNobody : ServerOp → Bool
  | .poll input => input.accepted.isEmpty
  | _ => true

theorem not_pass {op : ServerOp} (h : Shares cfg routes s op) (hpoll : isPoll op = false) :
    runsPass op = false := by
  cases op with
  | pass input => exact h.elim
  | poll input => cases hpoll
  | _ => rfl

/-- A server that has one more poll to run has publishers on different routes. -/
theorem along_apart {ops : List ServerOp} (h : Along cfg (Shares cfg routes) s ops)
    (hpoll : 0 < ops.countP isPoll) : routes.Nodup := by
  induction ops generalizing s with
  | nil => cases hpoll
  | cons op ops ih =>
    cases hop : isPoll op with
    | false =>
      rw [List.countP_cons_of_neg (by simp [hop])] at hpoll
      exact ih h.2 hpoll
    | true =>
      cases op with
      | poll input => exact h.1.crowd.apart
      | _ => cases hop

/-- A poll that accepts nobody is one pass. -/
theorem poll_alone {input : PollInput} (ht : Tenancy s) (h : input.accepted = []) :
    s.pollImpl cfg input = ((processConnections cfg { input.first with relaySends := 0 } s).server,
      (processConnections cfg { input.first with relaySends := 0 } s).trace) := by
  have hpass := ht.stages (pass_stages cfg { input.first with relaySends := 0 } s [])
  unfold Server.pollImpl
  dsimp only
  generalize processConnections cfg { input.first with relaySends := 0 } s = p at hpass
  rw [h]
  refine if_neg fun hnew => ?_
  obtain ⟨c, hc, hle⟩ := List.any_eq_true.mp hnew
  have hlt : c.connId < p.server.nextConnId := (hpass.below c hc).2
  have hle := of_decide_eq_true hle
  omega

/-- The routes that polls serve, in order. -/
theorem polls_routes {ops : List ServerOp} (ht : Tenancy s)
    (h : Along cfg (Shares cfg routes) s ops) (hnobody : ∀ op ∈ ops, acceptsNobody op = true)
    (hroutes : 0 < routes.length)
    (hwrap : s.relayLocalRrOffset + ops.countP isPoll ≤ 2 ^ 64) :
    (handledFrames (Server.run cfg s ops).2).map (fun f => some f.route) =
      (List.range (ops.countP isPoll)).map (fun k =>
        routes[(s.relayLocalRrOffset + k) % routes.length]?) := by
  induction ops generalizing s with
  | nil => rfl
  | cons op ops ih =>
    obtain ⟨hop, hrest⟩ := h
    have htenancy := ht.course (exec_course cfg s [] op)
    have hlater := fun op' hop' => hnobody op' (List.mem_cons_of_mem op hop')
    unfold Server.run
    dsimp only
    rw [handled_append]
    cases hpoll : isPoll op with
    | false =>
      have hidle := exec_idle cfg s (not_pass hop hpoll)
      rw [List.countP_cons_of_neg (by simp [hpoll])] at hwrap ⊢
      rw [hidle.2, List.nil_append, ih htenancy hrest hlater (by rw [hidle.1]; exact hwrap), hidle.1]
    | true =>
      cases op with
      | poll input =>
        have hlt := Nat.mod_lt s.relayLocalRrOffset hroutes
        obtain ⟨⟨f, hf, hhandled⟩, hmoved⟩ :=
          tight_pass hop rfl (List.getElem?_eq_getElem hlt)
        have hexec : (ServerOp.poll input).exec cfg s = _ :=
          poll_alone ht (List.isEmpty_iff.mp (hnobody _ List.mem_cons_self))
        rw [hexec] at hrest htenancy ⊢
        rw [List.countP_cons_of_pos (by rfl)] at hwrap ⊢
        dsimp only at hrest htenancy ⊢
        generalize processConnections cfg { input.first with relaySends := 0 } s = p at *
        have hnext := ih htenancy hrest hlater (by omega)
        rw [List.map_append, hnext, hhandled, List.range_succ_eq_map, List.map_singleton,
          List.map_cons, List.map_map]
        refine congrArg₂ (· :: ·) ?_ (List.map_congr_left fun k hk => ?_)
        · rw [hf, Nat.add_zero, List.getElem?_eq_getElem hlt]
        · have hk := List.mem_range.mp hk
          rw [hmoved, Nat.mod_eq_of_lt (a := s.relayLocalRrOffset + 1) (by omega)]
          exact congrArg (fun i => routes[i % routes.length]?) (by omega)
      | _ => cases hpoll

/-- Polls that accept nobody share a budget of one send: as many of them as there are publishers
handle one frame of each route, as long as the rotation does not wrap around in them. -/
theorem polls_share_budget (cfg : CacheConfig) (settings : ServerSettings)
    (before ops : List ServerOp) (routes : List RouteKey)
    (h : Along cfg (Shares cfg routes) (Server.run cfg { settings } before).1 ops)
    (hnobody : ∀ op ∈ ops, acceptsNobody op = true)
    (hpolls : ops.countP isPoll = routes.length)
    (hwrap : (Server.run cfg { settings } before).1.relayLocalRrOffset + routes.length ≤ 2 ^ 64)
    (route : RouteKey) (hroute : route ∈ routes) :
    ((handledFrames (Server.run cfg (Server.run cfg { settings } before).1 ops).2).map
      RelayFrame.route).count route = 1 := by
  have ht := tenancy_run cfg settings before
  generalize (Server.run cfg { settings } before).1 = s at *
  have hpos := List.length_pos_of_mem hroute
  have hserved := polls_routes ht h hnobody hpos (hpolls ▸ hwrap)
  have hrotated : (handledFrames (Server.run cfg s ops).2).map RelayFrame.route =
      routes.rotate s.relayLocalRrOffset := by
    refine List.map_injective_iff.mpr (fun _ _ => Option.some.inj) ?_
    rw [List.map_map]
    refine hserved.trans (List.ext_getElem? fun k => ?_)
    rw [hpolls, List.getElem?_map, List.getElem?_map]
    by_cases hk : k < routes.length
    · have hlt := Nat.mod_lt (s.relayLocalRrOffset + k) hpos
      rw [List.getElem?_range hk, List.getElem?_rotate hk, Nat.add_comm k,
        List.getElem?_eq_getElem hlt]
      simp [List.getElem?_eq_getElem hlt]
    · rw [List.getElem?_eq_none (by simpa using hk), List.getElem?_eq_none (by simpa using hk)]
      rfl
  rw [hrotated]
  exact List.count_eq_one_of_mem (List.nodup_rotate.mpr (along_apart h (hpolls ▸ hpos)))
    (List.mem_rotate.mpr hroute)

end Polls

section Evaluation

instance (routes : List RouteKey) (s : Server) : Decidable (Crowd routes s) :=
  decidable_of_iff ((localQueues s).map (fun q => q.head?.map RelayFrame.route) = routes.map some ∧
      (∀ q ∈ localQueues s, ∀ f ∈ q, some f.route = q.head?.map RelayFrame.route) ∧
      routes.Nodup ∧
      (∀ q ∈ localQueues s, ∀ f ∈ q, isExternalPublisherId f.publisherConnId = false) ∧
      s.orphanedRelay = [] ∧ s.pendingInjectedRelay = [])
    ⟨fun ⟨leads, own, apart, sockets, orphaned, injected⟩ =>
        ⟨leads, own, apart, sockets, orphaned, injected⟩,
      fun h => ⟨h.leads, h.own, h.apart, h.sockets, h.orphaned, h.injected⟩⟩

instance (cfg : CacheConfig) (routes : List RouteKey) (input : PassInput) (s : Server) :
    Decidable (Tight cfg routes input s) :=
  decidable_of_iff (Crowd routes (atBatch cfg input s) ∧
      (atFanout cfg input s).2.settings.maxRelaySendsPerPoll = 1 ∧
      (∀ f ∈ (atFanout cfg input s).1,
        (relayPlayers cfg.codec (atFanout cfg input s).2.connections f).length = 1) ∧
      (∀ f ∈ (atFanout cfg input s).1,
        ∀ i ∈ relayPlayers cfg.codec (atFanout cfg input s).2.connections f,
        (atFanout cfg input s).2.connections[i]?.all
          (uncongested (atFanout cfg input s).2.settings.limits) = true) ∧
      closesIn cfg input s = [])
    ⟨fun ⟨crowd, budget, single, able, stays⟩ => ⟨crowd, budget, single, able, stays⟩,
      fun h => ⟨h.crowd, h.budget, h.single, h.able, h.stays⟩⟩

instance (cfg : CacheConfig) (routes : List RouteKey) (s : Server) (op : ServerOp) :
    Decidable (Shares cfg routes s op) :=
  match op with
  | .poll input =>
    inferInstanceAs (Decidable (Tight cfg routes { input.first with relaySends := 0 } s))
  | .pass _ => inferInstanceAs (Decidable False)
  | .accept _ _ _ | .complete _ _ _ _ _ _ | .inject _ _ _ _ _ | .connInject _ _ _ _ _
  | .releaseInjected _ | .releaseAllInjected | .setRelayKey _ _ | .setRelayEnabled _ _
  | .tune _ | .stop => inferInstanceAs (Decidable True)

instance decidableAlong (cfg : CacheConfig) (P : Server → ServerOp → Prop)
    [∀ s op, Decidable (P s op)] :
    (s : Server) → (ops : List ServerOp) → Decidable (Along cfg P s ops)
  | _, [] => .isTrue trivial
  | s, op :: ops =>
    have := decidableAlong cfg P (op.exec cfg s).1 ops
    inferInstanceAs (Decidable (P s op ∧ Along cfg P (op.exec cfg s).1 ops))

/-- Connections 1 and 2 publish, 3 plays what 1 publishes, and 4 what 2 publishes. -/
def twoRoutes : List ServerOp :=
  [.accept 0 ⟨false⟩ 3, .accept 0 ⟨false⟩ 4, .accept 0 ⟨false⟩ 5, .accept 0 ⟨false⟩ 6,
    hears fun connId => joins ++
      [if connId = 1 then publishes "a"
        else if connId = 2 then publishes "b"
        else tells (.command (.play (some (if connId = 3 then "a" else "b"))))]]

def twoPolls (accepted : List (Nat × Transport × Nat)) : List ServerOp :=
  [.poll {
      first := { conns := fun connId =>
        { events := if connId ≤ 2 then [sendsAudio, sendsAudio, sendsAudio] else [] } }
      accepted },
    .poll { accepted }]

def twoRoutesServer : Server :=
  (Server.run mediaConfig { settings := { maxRelaySendsPerPoll := 1 } } twoRoutes).1

theorem two_polls_share_budget :
    ((handledFrames (Server.run mediaConfig twoRoutesServer (twoPolls [])).2).map
      RelayFrame.route).count ("live", "b") = 1 := by
  -- the two hypotheses about the server are evaluated together, so that its run is evaluated once
  rw [twoRoutesServer]
  refine and_imp.mpr (fun h hwrap => polls_share_budget mediaConfig { maxRelaySendsPerPoll := 1 }
    twoRoutes (twoPolls []) [("live", "a"), ("live", "b")] h ?_ rfl hwrap ("live", "b") ?_)
    (by decide +kernel) <;> decide

/-- With a connection accepted in each poll, both serve the same route. -/
theorem accepting_polls_starve :
    Along mediaConfig (Shares mediaConfig [("live", "a"), ("live", "b")]) twoRoutesServer
      (twoPolls [(0, ⟨false⟩, 7)]) ∧
    (∀ e ∈ (Server.run mediaConfig twoRoutesServer (twoPolls [(0, ⟨false⟩, 7)])).2,
      Undisturbed e) ∧
    (handledFrames (Server.run mediaConfig twoRoutesServer (twoPolls [(0, ⟨false⟩, 7)])).2).map
      RelayFrame.route = [("live", "a"), ("live", "a")] := by
  decide +kernel

end Evaluation

end LibRtmp.Proofs
