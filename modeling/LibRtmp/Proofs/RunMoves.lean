import LibRtmp.Proofs.FanoutMoves

namespace LibRtmp.Proofs

open Relation (ReflTransGen)

variable (cfg : CacheConfig)

/-- What is observed only grows. -/
theorem step_past {cfg : CacheConfig} {st st' : Stage} (h : st.Step cfg st') :
    ∃ events, st'.past = st.past ++ events := by
  rcases h with (hcalm | hstir) | hreset
  · obtain ⟨events, _, hpast⟩ := calm_past hcalm
    exact ⟨events, hpast⟩
  · cases hstir with
    | act i c act _ _ _ => exact ⟨_, rfl⟩
    | detach i c claimed _ _ _ _ => exact ⟨_, rfl⟩
    | remove i c _ _ => exact ⟨_, rfl⟩
    | vacate connId => exact ⟨[], (List.append_nil _).symm⟩
    | adjust i c c' _ _ => exact ⟨[], (List.append_nil _).symm⟩
    | accept now transport fd => exact ⟨[], (List.append_nil _).symm⟩
    | inject now route frameType timestamp payload s _ _ => exact ⟨_, rfl⟩
    | release route _ => exact ⟨_, rfl⟩
    | forget route _ => exact ⟨[], (List.append_nil _).symm⟩
    | tune settings => exact ⟨[], (List.append_nil _).symm⟩
    | lead injectFirst => exact ⟨[], (List.append_nil _).symm⟩
  · cases hreset with
    | ids => exact ⟨[], (List.append_nil _).symm⟩
    | stop _ => exact ⟨_, rfl⟩

/-- The first half of a pass, step by step. -/
theorem reap_and_receive_stages (input : PassInput) (s : Server) (past : List ServerEvent) :
    Stages cfg ⟨s, [], past⟩ (Pass.stage [] past (Pass.reapAndReceive cfg input s)) := by
  unfold Pass.reapAndReceive
  dsimp only
  have hreap := reap_stages cfg past input { server := s }
  have hstart : Pass.stage [] past { server := s } = ⟨s, [], past⟩ := by simp [Pass.stage]
  rw [hstart] at hreap
  generalize Pass.reapTimedOutPendingAuth cfg.codec input { server := s } = p at hreap
  have hdrain := stages_of_calm (drain_stages cfg past p)
  generalize p.drain.2 = q at hdrain
  have hstale := release_stages cfg (q.server.staleInjectRoutes input.now)
    (Pass.stage [] past q) rfl
  have hstaleq : { Pass.stage [] past q with
      server := (q.server.staleInjectRoutes input.now).foldl Server.releaseInjectedRoute
        (Pass.stage [] past q).server
      past := (Pass.stage [] past q).past ++
        (q.server.staleInjectRoutes input.now).map ServerEvent.released } =
      Pass.stage [] past { q with
        server := q.server.reapStaleInjectRoutes input.now
        trace := q.trace ++ (q.server.staleInjectRoutes input.now).map ServerEvent.released } := by
    simp [Pass.stage, Server.reapStaleInjectRoutes, List.append_assoc]
  rw [hstaleq] at hstale
  generalize { q with
    server := q.server.reapStaleInjectRoutes input.now
    trace := q.trace ++ (q.server.staleInjectRoutes input.now).map ServerEvent.released } = u
    at hstale
  have hrecv := recv_stages cfg past input u
  exact ((hreap.trans hdrain).trans hstale).trans hrecv

/-- The first half of a pass. -/
theorem receive_phase_stages (input : PassInput) (s : Server) (past : List ServerEvent) :
    Stages cfg ⟨s, [], past⟩ (Pass.stage [] past (Pass.receivePhase cfg input s).2) ∧
      (Pass.stage [] past (Pass.receivePhase cfg input s).2).Noted
        (Pass.receivePhase cfg input s).1 := by
  have hreceive := reap_and_receive_stages cfg input s past
  unfold Pass.receivePhase
  dsimp only
  generalize Pass.reapAndReceive cfg input s = v at hreceive
  have hdrain := drain_stages cfg past v
  have hnoted := drain_noted past v
  have hdetach := detach_stages cfg past v.drain.2
  refine ⟨?_, ?_⟩
  · exact hreceive.trans ((stages_of_calm hdrain).trans hdetach)
  · obtain ⟨events, hstill, htrace⟩ := detach_still cfg v.drain.2
    refine Stage.Noted.mono hnoted ⟨events, hstill, ?_⟩
    unfold Pass.stage
    rw [htrace, List.append_assoc]

theorem trim_empties {s : Server} (abandoned : List Abandoned)
    (h : ∀ c ∈ s.connections, c.pendingCacheEvictions = []) :
    ∀ c ∈ (s.dropStalePendingRelay abandoned).connections, c.pendingCacheEvictions = [] := by
  intro d hd
  obtain ⟨c, hc, rfl⟩ := List.mem_map.mp hd
  split <;> exact h c hc

/-- Everything that waits is taken into the batch. -/
theorem take_queued (s : Server) : s.buildRelayFrameBatch.2.queued = [] := by
  unfold Server.buildRelayFrameBatch Server.queued
  dsimp only
  rw [List.nil_append, List.append_nil, List.flatMap_eq_nil_iff]
  intro d hd
  obtain ⟨c, _, rfl⟩ := List.mem_map.mp hd
  split
  · rfl
  · rename_i hkept
    unfold Server.relays at hkept
    simp only [Bool.or_eq_true, not_or, Bool.not_eq_true', Bool.not_eq_false,
      List.isEmpty_iff] at hkept
    exact hkept.2

theorem replay_queued (codec : Codec) (p : Pass) :
    (Pass.replayInitFramesForNewPlayers codec p).server.queued = p.server.queued := by
  have hround : ∀ (p : Pass) i, (Pass.replayOne codec p i).server.queued = p.server.queued := by
    intro p i
    unfold Pass.replayOne
    split
    · rfl
    · rename_i c hc
      have hrows := Rows.forall₂_set Unseen.refl hc (replay_unseen codec p.server.cache c)
      unfold Server.queued Server.put
      dsimp only
      rw [pending_unseen hrows]
  have hloop : ∀ (l : List Nat) (p : Pass),
      (l.foldl (Pass.replayOne codec) p).server.queued = p.server.queued := by
    intro l
    induction l with
    | nil => exact fun _ => rfl
    | cons i l ih => exact fun p => (ih _).trans (hround p i)
  exact hloop _ p

/-- The second half of a pass leaves claims alone. -/
theorem relay_phase_stages (input : PassInput) (first : List Abandoned) (p : Pass)
    (past : List ServerEvent) (hn : (Pass.stage [] past p).Noted first) :
    CalmStages cfg (Pass.stage [] past p)
      (Pass.stage [] past (Pass.relayPhase cfg input first p)) := by
  unfold Pass.relayPhase
  dsimp only
  have hdrain := drain_stages cfg past p
  have hnoted := drain_noted past p
  have hempty := trim_empties (first ++ p.drain.1) (drain_empties p.server)
  change ∀ c ∈ (p.drain.2.server.dropStalePendingRelay (first ++ p.drain.1)).connections,
    c.pendingCacheEvictions = [] at hempty
  generalize p.drain = r at hdrain hnoted hempty
  obtain ⟨second, q⟩ := r
  dsimp only at hdrain hnoted hempty ⊢
  have hall : (Pass.stage [] past q).Noted (first ++ second) := by
    intro a ha
    rcases List.mem_append.mp ha with ha | ha
    · exact Stage.Noted.mono hn (calm_stages_past hdrain) ha
    · exact hnoted ha
  have htrim : Stage.Calm cfg (Pass.stage [] past q) _ := .trim (first ++ second) hall rfl
  have htake : Stage.Calm cfg
      ⟨q.server.dropStalePendingRelay (first ++ second), [], past ++ q.trace⟩ _ := .take rfl hempty
  have htaken := take_queued (q.server.dropStalePendingRelay (first ++ second))
  generalize (q.server.dropStalePendingRelay (first ++ second)).buildRelayFrameBatch = b
    at htake htaken
  obtain ⟨frames, s⟩ := b
  have hreplay := replay_stages cfg frames past { q with server := s }
  have hbatch : (Pass.stage frames past { q with server := s }).Noted (first ++ second) := hall
  have hnoted' := Stage.Noted.mono hbatch (calm_stages_past hreplay)
  have hqueued := (replay_queued cfg.codec { q with server := s }).trans htaken
  generalize Pass.replayInitFramesForNewPlayers cfg.codec { q with server := s } = u
    at hreplay hnoted' hqueued
  have hsend := send_stages cfg (first ++ second) input frames past u hnoted' hqueued
  generalize Pass.sendAndExportRelayFrames cfg input (first ++ second) frames u = v at hsend
  have hflush := flush_stages cfg [] past input v
  exact ((((hdrain.tail htrim).tail htake).trans hreplay).trans hsend).trans hflush

theorem pass_stages (input : PassInput) (s : Server) (past : List ServerEvent) :
    Stages cfg ⟨s, [], past⟩ ⟨(processConnections cfg input s).server, [],
      past ++ (processConnections cfg input s).trace⟩ := by
  obtain ⟨hreceive, hnoted⟩ := receive_phase_stages cfg input s past
  have hrelay := relay_phase_stages cfg input _ _ past hnoted
  have hremove := remove_stages cfg past (Pass.relayPhase cfg input
    (Pass.receivePhase cfg input s).1 (Pass.receivePhase cfg input s).2)
  unfold processConnections
  exact (hreceive.trans (stages_of_calm hrelay)).trans hremove

theorem accept_stages (accepted : List (Nat × Transport × Nat)) (s : Server)
    (past : List ServerEvent) :
    Stages cfg ⟨s, [], past⟩ ⟨s.acceptNewConnections accepted, [], past⟩ := by
  induction accepted generalizing s with
  | nil => exact .refl
  | cons a accepted ih =>
    have hstep : Stage.Stir cfg ⟨s, [], past⟩ _ := .accept a.1 a.2.1 a.2.2
    exact ReflTransGen.head (.inr hstep) (ih _)

theorem poll_stages (input : PollInput) (s : Server) (past : List ServerEvent) :
    Stages cfg ⟨s, [], past⟩ ⟨(s.pollImpl cfg input).1, [], past ++ (s.pollImpl cfg input).2⟩ := by
  unfold Server.pollImpl
  dsimp only
  have hfirst := pass_stages cfg { input.first with relaySends := 0 } s past
  generalize processConnections cfg { input.first with relaySends := 0 } s = p at hfirst
  have haccepted := hfirst.trans (accept_stages cfg input.accepted p.server (past ++ p.trace))
  generalize p.server.acceptNewConnections input.accepted = t at haccepted
  split
  · have hlead : Stage.Stir cfg ⟨t, [], past ++ p.trace⟩ _ := .lead s.relayInterleaveInjectFirst
    generalize { input.second with
      relaySends := relaySendsAfter cfg { input.first with relaySends := 0 } s } = second
    have hsecond := pass_stages cfg second
      { t with relayInterleaveInjectFirst := s.relayInterleaveInjectFirst } (past ++ p.trace)
    generalize processConnections cfg second
      { t with relayInterleaveInjectFirst := s.relayInterleaveInjectFirst } = q at hsecond
    rw [List.append_assoc] at hsecond
    exact (haccepted.tail (.inr hlead)).trans hsecond
  · exact haccepted

section Operations

variable (s : Server) (past : List ServerEvent)

theorem index_of_row {s : Server} {connId i : Nat} (h : s.indexOf connId = some i) :
    ∃ c, s.connections[i]? = some c ∧ c.connId = connId := by
  unfold Server.indexOf at h
  obtain ⟨hlt, hid, _⟩ := List.findIdx?_eq_some_iff_getElem.mp h
  exact ⟨s.connections[i], List.getElem?_eq_getElem hlt, by simpa using hid⟩

/-- A follow-up that is only a flush. -/
theorem act_on_stages (connId : Nat) (act : ConnAct) (ha : act ≠ .detach)
    (followUp : Conn → Conn × List InitFrame)
    (hf : ∀ (st : Stage) i t events c, st.server.connections[i]? = some c →
      st.server.cache = s.cache →
      CalmStages cfg (Stage.leave st i t events) (Stage.leave st i ⟨(followUp t.conn).1, t.routes⟩
        (events ++ (followUp t.conn).1.replayed (followUp t.conn).2))) :
    Stages cfg ⟨s, [], past⟩ ⟨(s.actOn cfg.codec connId act followUp).1, [],
      past ++ (s.actOn cfg.codec connId act followUp).2⟩ := by
  unfold Server.actOn
  split
  · simpa using ReflTransGen.refl
  · rename_i i hi
    split
    · simpa using ReflTransGen.refl
    · rename_i c hc
      have hact := perform_stages cfg ⟨s, [], past⟩ rfl (s := ⟨c, s.activePublishRoutes⟩) hc rfl act ha
      generalize Session.perform cfg.codec act ⟨c, s.activePublishRoutes⟩ = r at hact
      obtain ⟨r, t, trace⟩ := r
      cases r with
      | error _ => exact hact
      | ok _ => exact hact.trans (stages_of_calm (hf ⟨s, [], past⟩ i t trace c hc rfl))

theorem after_completion_stages (role : Role) (socket : Socket) (st : Stage) (i : Nat) (t : Session)
    (events : List ServerEvent) (c : Conn) (hc : st.server.connections[i]? = some c) :
    CalmStages cfg (Stage.leave st i t events)
      (Stage.leave st i ⟨(Server.afterCompletion cfg.codec st.server.cache role socket t.conn).1,
        t.routes⟩ (events ++
          (Server.afterCompletion cfg.codec st.server.cache role socket t.conn).1.replayed
            (Server.afterCompletion cfg.codec st.server.cache role socket t.conn).2)) := by
  unfold Server.afterCompletion
  cases role with
  | publish =>
    have hflush := leave_aside cfg st hc (t := t) events (flush_aside t.conn socket)
    simpa [Conn.replayed] using ReflTransGen.single hflush
  | play =>
    dsimp only
    have hreplay := leave_replay cfg st hc t events
    have hid := replay_conn_id cfg.codec st.server.cache t.conn
    generalize t.conn.replayInitFrames cfg.codec st.server.cache = r at hreplay hid
    obtain ⟨failed, d, sent⟩ := r
    cases failed with
    | true =>
      dsimp only
      rw [replayed_congr hid]
      exact .single hreplay
    | false =>
      have hflush := flush_aside d socket
      have hstep := leave_aside cfg st hc (t := ⟨d, t.routes⟩) (events ++ t.conn.replayed sent) hflush
      dsimp only
      rw [replayed_congr (hflush.unseen.conn_id.trans hid)]
      exact (ReflTransGen.single hreplay).tail hstep

theorem tune_conn_stages (connId : Nat) (f : Conn → Conn) (hf : ∀ c, Unseen c (f c)) :
    Stages cfg ⟨s, [], past⟩ ⟨s.tuneConn connId f, [], past ++ []⟩ := by
  rw [List.append_nil]
  unfold Server.tuneConn
  split
  · exact .refl
  · rename_i i hi
    obtain ⟨c, hc, _⟩ := index_of_row hi
    have hstep : Stage.Stir cfg ⟨s, [], past⟩ _ := .adjust i c (f c) hc (hf c)
    have hmodify : s.connections.modify i f = s.connections.set i (f c) := by
      rw [List.modify_eq_set_getElem?, hc]
      rfl
    rw [hmodify]
    exact .single (.inr hstep)

/-- Releasing a route that is not held forgets when it was last used. -/
theorem release_unheld {s : Server} {route : RouteKey} (h : s.holdsInjected route = false) :
    s.releaseInjectedRoute route =
      { s with injectRouteLastSeen := s.injectRouteLastSeen.erase route } := by
  unfold Server.holdsInjected at h
  rw [Bool.or_eq_false_iff, List.any_eq_false] at h
  have hid : s.externalRouteIds.lookup route = none := by simpa using h.1
  have hkept : s.pendingInjectedRelay.filter (fun f => f.route ≠ route) = s.pendingInjectedRelay :=
    List.filter_eq_self.mpr fun f hf => by simpa using h.2 f hf
  unfold Server.releaseInjectedRoute
  dsimp only
  rw [hid, hkept]

def resets : ServerOp → Bool
  | .releaseAllInjected | .stop => true
  | _ => false

/-- Every call but a reset goes by the steps of a stage. -/
theorem exec_stages (op : ServerOp) (hr : resets op = false) :
    Stages cfg ⟨s, [], past⟩ ⟨(op.exec cfg s).1, [], past ++ (op.exec cfg s).2⟩ := by
  cases op with
  | accept now transport fd =>
    have hstep : Stage.Stir cfg ⟨s, [], past⟩ _ := .accept now transport fd
    simp only [ServerOp.exec, List.append_nil]
    exact .single (.inr hstep)
  | pass input =>
    simp only [ServerOp.exec]
    exact pass_stages cfg input s past
  | poll input =>
    simp only [ServerOp.exec]
    exact poll_stages cfg input s past
  | complete connId host role requestId allow socket =>
    simp only [ServerOp.exec]
    exact act_on_stages cfg s past connId _ (by simp) _ fun st i t events c hc hcache =>
      hcache ▸ after_completion_stages cfg role socket st i t events c hc
  | inject now route frameType timestamp payload =>
    simp only [ServerOp.exec]
    split
    · simpa using ReflTransGen.refl
    · rename_i t ht
      have hstep : Stage.Stir cfg ⟨s, [], past⟩ _ :=
        .inject now route frameType timestamp payload t ht rfl
      exact .single (.inr hstep)
  | connInject connId host frameType timestamp payload =>
    simp only [ServerOp.exec]
    refine act_on_stages cfg s past connId _ (by simp) _ fun st i t events c hc hcache => ?_
    simpa [Conn.replayed] using ReflTransGen.refl
  | releaseInjected route =>
    simp only [ServerOp.exec]
    split
    · have hstep : Stage.Stir cfg ⟨s, [], past⟩ _ := .release route rfl
      exact .single (.inr hstep)
    · rename_i hfree
      have hfree' : s.holdsInjected route = false := by simpa using hfree
      have hstep : Stage.Stir cfg ⟨s, [], past⟩ _ := .forget route hfree'
      rw [release_unheld hfree', List.append_nil]
      exact .single (.inr hstep)
  | releaseAllInjected => cases hr
  | setRelayKey connId relayKey =>
    simp only [ServerOp.exec]
    exact tune_conn_stages cfg s past connId _ fun c _ => rfl
  | setRelayEnabled connId enabled =>
    simp only [ServerOp.exec]
    exact tune_conn_stages cfg s past connId _ fun c _ => rfl
  | tune settings =>
    have hstep : Stage.Stir cfg ⟨s, [], past⟩ _ := .tune settings
    simp only [ServerOp.exec, List.append_nil]
    exact .single (.inr hstep)
  | stop => cases hr

theorem exec_course (op : ServerOp) :
    Course cfg ⟨s, [], past⟩ ⟨(op.exec cfg s).1, [], past ++ (op.exec cfg s).2⟩ := by
  cases hr : resets op with
  | false => exact course_of_stages (exec_stages cfg s past op hr)
  | true =>
    cases op with
    | releaseAllInjected =>
      have hrelease := release_stages cfg s.injectedRoutes ⟨s, [], past⟩ rfl
      simp only [ServerOp.exec]
      exact (course_of_stages hrelease).tail (.inr .ids)
    | stop =>
      have hstep : Stage.Reset ⟨s, [], past⟩ _ := .stop rfl
      simp only [ServerOp.exec]
      exact .single (.inr hstep)
    | _ => cases hr

/-- Every run of the server is one of the abstract server. -/
theorem run_stages (ops : List ServerOp) :
    Course cfg ⟨s, [], past⟩ ⟨(Server.run cfg s ops).1, [],
      past ++ (Server.run cfg s ops).2⟩ := by
  induction ops generalizing s past with
  | nil => simpa [Server.run] using ReflTransGen.refl
  | cons op ops ih =>
    have hrest := ih (op.exec cfg s).1 (past ++ (op.exec cfg s).2)
    rw [List.append_assoc] at hrest
    exact (exec_course cfg s past op).trans hrest

end Operations

end LibRtmp.Proofs
