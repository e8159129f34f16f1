import LibRtmp.Proofs.Asides
import LibRtmp.Proofs.RouteMoves

namespace LibRtmp.Proofs

open Relation (ReflTransGen)

variable (cfg : CacheConfig)

abbrev Stages (cfg : CacheConfig) : Stage → Stage → Prop := ReflTransGen (Stage.Move cfg)

abbrev Course (cfg : CacheConfig) : Stage → Stage → Prop := ReflTransGen (Stage.Step cfg)

abbrev CalmStages (cfg : CacheConfig) : Stage → Stage → Prop := ReflTransGen (Stage.Calm cfg)

theorem stages_of_calm {cfg : CacheConfig} {st st' : Stage} (h : CalmStages cfg st st') :
    Stages cfg st st' :=
  Relation.ReflTransGen.mono (fun _ _ => .inl) _ _ h

theorem course_of_stages {cfg : CacheConfig} {st st' : Stage} (h : Stages cfg st st') :
    Course cfg st st' :=
  Relation.ReflTransGen.mono (fun _ _ => .inl) _ _ h

def Pass.stage (batch : List RelayFrame) (past : List ServerEvent) (p : Pass) : Stage :=
  ⟨p.server, batch, past ++ p.trace⟩

section Noting

def Still (events : List ServerEvent) : Prop :=
  ∀ c act d, .turn c act d ∈ events → act = .detach

theorem Still.append {events more : List ServerEvent} (h : Still events) (h' : Still more) :
    Still (events ++ more) :=
  fun c act d hmem => (List.mem_append.mp hmem).elim (h c act d) (h' c act d)

theorem drained_still {events : List ServerEvent} (h : Still events) (keys : List Abandoned) :
    keys ⊆ events.foldl ServerEvent.drained keys := by
  induction events generalizing keys with
  | nil => exact fun _ ha => ha
  | cons e events ih =>
    have hrest := ih (fun c act d hmem => h c act d (List.mem_cons_of_mem _ hmem))
    cases e with
    | turn c act d =>
      cases h c act d List.mem_cons_self
      exact hrest keys
    | abandoned connId route =>
      exact fun _ ha => hrest _ (List.mem_append_left _ ha)
    | _ => exact hrest keys

theorem drained_abandonments (keys more : List Abandoned) :
    (abandonments more).foldl ServerEvent.drained keys = keys ++ more := by
  induction more generalizing keys with
  | nil => exact (List.append_nil keys).symm
  | cons k more ih =>
    have hrest := ih (keys ++ [k])
    rw [List.append_assoc] at hrest
    exact hrest

theorem Stage.Noted.mono {st st' : Stage} {abandoned : List Abandoned} (h : st.Noted abandoned)
    (hp : ∃ events, Still events ∧ st'.past = st.past ++ events) : st'.Noted abandoned := by
  obtain ⟨events, hstill, hp⟩ := hp
  intro a ha
  rw [hp, List.foldl_append]
  exact drained_still hstill _ (h ha)

theorem note_all_evictions (keys : List RouteKey) (c : Conn) :
    (keys.foldl Conn.noteAbandonedRelayRoute c).pendingCacheEvictions = c.pendingCacheEvictions := by
  induction keys generalizing c with
  | nil => rfl
  | cons k keys ih => exact (ih _).trans (note_abandoned_evictions c k)

/-- What a calm step observes is no act on a connection. -/
theorem calm_past {cfg : CacheConfig} {st st' : Stage} (h : st.Calm cfg st') :
    ∃ events, Still events ∧ st'.past = st.past ++ events := by
  have hstay : Still [] := by simp [Still]
  cases h with
  | aside connections _ => exact ⟨[], hstay, (List.append_nil _).symm⟩
  | replay i c _ => exact ⟨_, by simp [Still, Conn.replayed], rfl⟩
  | drain i _ => exact ⟨_, by simp [Still, abandonments], rfl⟩
  | trim abandoned _ _ => exact ⟨[], hstay, (List.append_nil _).symm⟩
  | take _ _ => exact ⟨[], hstay, (List.append_nil _).symm⟩
  | handle frame rest abandoned connections cache events _ _ _ ho _ =>
    refine ⟨_, ?_, rfl⟩
    intro c act d hmem
    rcases List.mem_cons.mp hmem with hmem | hmem
    · cases hmem
    · obtain ⟨_, _, heq, _⟩ := ho.offered _ hmem
      cases heq
  | requeue frame rest _ => exact ⟨[], hstay, (List.append_nil _).symm⟩

theorem calm_stages_past {cfg : CacheConfig} {st st' : Stage} (h : CalmStages cfg st st') :
    ∃ events, Still events ∧ st'.past = st.past ++ events := by
  induction h with
  | refl => exact ⟨[], by simp [Still], (List.append_nil _).symm⟩
  | tail _ hs ih =>
    obtain ⟨events, hstill, he⟩ := ih
    obtain ⟨more, hstill', hm⟩ := calm_past hs
    exact ⟨events ++ more, hstill.append hstill', by rw [hm, he, List.append_assoc]⟩

end Noting

section Rows

variable (st : Stage) {i : Nat} {c d : Conn}

theorem put_row (h : st.server.connections[i]? = some c) (t : Session) :
    (st.server.put i t).connections[i]? = some t.conn := by
  have hlt : i < st.server.connections.length := (List.getElem?_eq_some_iff.mp h).1
  exact List.getElem?_set_self hlt

theorem put_put (s : Server) (i : Nat) (t u : Session) : (s.put i t).put i u = s.put i u := by
  simp [Server.put, List.set_set]

theorem put_same (s : Server) {i : Nat} {c : Conn} (h : s.connections[i]? = some c) :
    s.put i ⟨c, s.activePublishRoutes⟩ = s := by
  have hset : s.connections.set i c = s.connections := by
    obtain ⟨hlt, rfl⟩ := List.getElem?_eq_some_iff.mp h
    exact List.set_getElem_self hlt
  unfold Server.put
  dsimp only
  rw [hset]

theorem aside_calm (h : st.server.connections[i]? = some c) (ha : Aside c d) :
    st.Calm cfg { st with server := st.server.put i ⟨d, st.server.activePublishRoutes⟩ } :=
  .aside _ (Rows.forall₂_set Aside.refl h ha)

end Rows

section Receiving

variable (st : Stage) {i : Nat} {c : Conn} {s : Session}

def Stage.leave (st : Stage) (i : Nat) (t : Session) (events : List ServerEvent) : Stage :=
  { st with server := st.server.put i t, past := st.past ++ events }

theorem leave_leave (i : Nat) (t u : Session) (events more : List ServerEvent) :
    Stage.leave (Stage.leave st i t events) i u more = Stage.leave st i u (events ++ more) := by
  simp [Stage.leave, put_put, List.append_assoc]

theorem leave_stay (h : st.server.connections[i]? = some s.conn)
    (hr : st.server.activePublishRoutes = s.routes) : Stage.leave st i s [] = st := by
  have hsame := put_same st.server h
  rw [hr] at hsame
  simp [Stage.leave, hsame]

theorem leave_aside (h : st.server.connections[i]? = some c) {t : Session} {d : Conn}
    (events : List ServerEvent) (ha : Aside t.conn d) :
    Stage.Calm cfg (Stage.leave st i t events) (Stage.leave st i ⟨d, t.routes⟩ events) := by
  have hstep := aside_calm cfg (Stage.leave st i t events) (put_row st h t) ha
  have heq : { Stage.leave st i t events with
      server := (Stage.leave st i t events).server.put i
        ⟨d, (Stage.leave st i t events).server.activePublishRoutes⟩ } =
      Stage.leave st i ⟨d, t.routes⟩ events := by
    simp [Stage.leave, put_put]
    rfl
  rwa [heq] at hstep

theorem perform_stages (hb : st.batch = []) (h : st.server.connections[i]? = some s.conn)
    (hr : st.server.activePublishRoutes = s.routes) (act : ConnAct) (ha : act ≠ .detach) :
    Stages cfg st (Stage.leave st i (s.perform cfg.codec act).2.1 (s.perform cfg.codec act).2.2) := by
  have hstep : Stage.Stir cfg st _ := .act i s.conn act h ha hb
  rw [hr] at hstep
  exact .single (.inr hstep)

theorem receive_stages (hb : st.batch = []) (events : List Inbound)
    (h : st.server.connections[i]? = some s.conn) (hr : st.server.activePublishRoutes = s.routes) :
    Stages cfg st (Stage.leave st i (s.receive cfg.codec events).2.1
      (s.receive cfg.codec events).2.2) := by
  induction events generalizing st s with
  | nil =>
    rw [show Stage.leave st i (Session.receive cfg.codec [] s).2.1
      (Session.receive cfg.codec [] s).2.2 = st from leave_stay st h hr]
  | cons event events ih =>
    have hfirst := perform_stages cfg st hb h hr (.inbound event) (by simp)
    unfold Session.receive
    generalize s.perform cfg.codec (.inbound event) = r at hfirst
    obtain ⟨r, t, trace⟩ := r
    cases r with
    | error _ => exact hfirst
    | ok _ =>
      have hrest := ih (Stage.leave st i t trace) (s := t) hb (put_row st h t) rfl
      rw [leave_leave] at hrest
      exact hfirst.trans hrest

theorem receive_one_stages (hb : st.batch = []) (input : ConnInput)
    (h : st.server.connections[i]? = some s.conn) (hr : st.server.activePublishRoutes = s.routes) :
    Stages cfg st (Stage.leave st i (Pass.receiveOne cfg.codec input s).2.1
      (Pass.receiveOne cfg.codec input s).2.2) := by
  have hstay := leave_stay st h hr
  unfold Pass.receiveOne
  split
  · have hstep := leave_aside cfg st h [] (disconnect_aside s.conn)
    rw [hstay] at hstep
    exact .single (.inl hstep)
  · split
    · rw [hstay]
    · exact receive_stages cfg st hb input.events h hr

theorem replay_conn_id (codec : Codec) (t : CacheTable) (c : Conn) :
    (c.replayInitFrames codec t).2.1.connId = c.connId :=
  (replay_unseen codec t c).conn_id

/-- The replay of a connection, from a stage where a session left it. -/
theorem leave_replay (h : st.server.connections[i]? = some c) (t : Session)
    (events : List ServerEvent) :
    Stage.Calm cfg (Stage.leave st i t events)
      (Stage.leave st i ⟨(t.conn.replayInitFrames cfg.codec st.server.cache).2.1, t.routes⟩
        (events ++ t.conn.replayed (t.conn.replayInitFrames cfg.codec st.server.cache).2.2)) := by
  have hstep : Stage.Calm cfg (Stage.leave st i t events) _ := .replay i t.conn (put_row st h t)
  have heq : { Stage.leave st i t events with
      server := (Stage.leave st i t events).server.put i
        ⟨(t.conn.replayInitFrames cfg.codec (Stage.leave st i t events).server.cache).2.1,
          (Stage.leave st i t events).server.activePublishRoutes⟩
      past := (Stage.leave st i t events).past ++ t.conn.replayed
        (t.conn.replayInitFrames cfg.codec (Stage.leave st i t events).server.cache).2.2 } =
      Stage.leave st i ⟨(t.conn.replayInitFrames cfg.codec st.server.cache).2.1, t.routes⟩
        (events ++ t.conn.replayed (t.conn.replayInitFrames cfg.codec st.server.cache).2.2) := by
    simp [Stage.leave, put_put, List.append_assoc]
    exact ⟨rfl, rfl⟩
  rwa [heq] at hstep

theorem replayed_congr {c d : Conn} (h : d.connId = c.connId) (frames : List InitFrame) :
    d.replayed frames = c.replayed frames := by
  unfold Conn.replayed
  rw [h]

/-- A replay at once, with the flush that follows it. -/
theorem replay_at_once_stages (h : st.server.connections[i]? = some c) (socket : Socket)
    (t : Session) (events : List ServerEvent) :
    CalmStages cfg (Stage.leave st i t events)
      (Stage.leave st i
        ⟨(Pass.replayAtOnce cfg.codec st.server.cache socket t.conn).2.1, t.routes⟩
        (events ++ (Pass.replayAtOnce cfg.codec st.server.cache socket t.conn).2.1.replayed
          (Pass.replayAtOnce cfg.codec st.server.cache socket t.conn).2.2)) := by
  have hreplay := leave_replay cfg st h t events
  have hid := replay_conn_id cfg.codec st.server.cache t.conn
  unfold Pass.replayAtOnce
  generalize t.conn.replayInitFrames cfg.codec st.server.cache = r at hreplay hid
  obtain ⟨failed, d, sent⟩ := r
  cases failed with
  | true =>
    rw [replayed_congr hid]
    exact .single hreplay
  | false =>
    dsimp only
    split
    · rw [replayed_congr hid]
      exact .single hreplay
    · have hflush := flush_aside d socket
      generalize d.flush socket = f at hflush
      obtain ⟨f, e⟩ := f
      have hsame : e.replayed sent = t.conn.replayed sent :=
        replayed_congr (hflush.unseen.conn_id.trans hid) sent
      have hstep := leave_aside cfg st h (t := ⟨d, t.routes⟩) (events ++ t.conn.replayed sent) hflush
      cases f <;> exact hsame ▸ (ReflTransGen.single hreplay).tail hstep

end Receiving

section Phases

variable (batch : List RelayFrame) (past : List ServerEvent)

theorem stage_leave (p : Pass) (i : Nat) (t : Session) (events : List ServerEvent)
    (closed : List Nat) (queued : Bool) :
    Pass.stage batch past ⟨p.server.put i t, closed, queued, p.trace ++ events⟩ =
      Stage.leave (Pass.stage batch past p) i t events := by
  simp [Pass.stage, Stage.leave, List.append_assoc]

theorem reap_one_stages (input : PassInput) (p : Pass) (i : Nat) :
    Stages cfg (Pass.stage [] past p)
      (Pass.stage [] past (Pass.reapOne cfg.codec input p i)) := by
  unfold Pass.reapOne
  split
  · exact .refl
  · rename_i c hc
    dsimp only
    have hact := perform_stages cfg (Pass.stage [] past p) rfl
      (s := ⟨c, p.server.activePublishRoutes⟩) hc rfl
      (.reap (input.conns c.connId).now p.server.settings.pendingAuthTimeout) (by simp)
    generalize Session.perform cfg.codec (.reap (input.conns c.connId).now
      p.server.settings.pendingAuthTimeout) ⟨c, p.server.activePublishRoutes⟩ = r at hact
    obtain ⟨r, t, trace⟩ := r
    have hflush := flush_aside t.conn (input.conns c.connId).reapSocket
    dsimp only
    split
    · rw [stage_leave]
      exact hact.tail (.inl (leave_aside cfg _ hc _ (hflush.trans (disconnect_aside _))))
    · rw [stage_leave]
      exact hact.tail (.inl (leave_aside cfg _ hc _ hflush))

theorem reap_stages (input : PassInput) (p : Pass) :
    Stages cfg (Pass.stage [] past p)
      (Pass.stage [] past (Pass.reapTimedOutPendingAuth cfg.codec input p)) :=
  Rows.foldl_path (fun p i => reap_one_stages cfg past input p i) _ p

theorem drain_one_eq (d : List Abandoned × Server) (i : Nat) :
    Server.drainOne d i =
      (d.1 ++ (Server.drainOne ([], d.2) i).1, (Server.drainOne ([], d.2) i).2) := by
  unfold Server.drainOne
  dsimp only
  split
  · simp
  · simp

theorem drain_stages (p : Pass) :
    CalmStages cfg (Pass.stage [] past p) (Pass.stage [] past p.drain.2) := by
  let view (d : List Abandoned × Server) : Stage :=
    ⟨d.2, [], past ++ p.trace ++ abandonments d.1⟩
  have hround : ∀ d i, CalmStages cfg (view d) (view (Server.drainOne d i)) := by
    intro d i
    rw [drain_one_eq]
    have hstep : Stage.Calm cfg (view d) _ := .drain i rfl
    have happ : abandonments (d.1 ++ (Server.drainOne ([], d.2) i).1) =
        abandonments d.1 ++ abandonments (Server.drainOne ([], d.2) i).1 := by
      simp [abandonments]
    dsimp only [view] at hstep ⊢
    rw [happ, ← List.append_assoc]
    exact .single hstep
  have hloop := Rows.foldl_path hround (List.range p.server.connections.length) ([], p.server)
  have hstart : view ([], p.server) = Pass.stage [] past p := by
    simp [view, abandonments, Pass.stage]
  have hend : view p.server.drainPendingCacheEvictions = Pass.stage [] past p.drain.2 := by
    simp [view, Pass.stage, Pass.drain, List.append_assoc]
  rw [← hstart, ← hend]
  exact hloop

/-- Everything a pass drained was observed. -/
theorem drain_noted (p : Pass) : (Pass.stage [] past p.drain.2).Noted p.drain.1 := by
  intro a ha
  unfold Pass.stage Pass.drain
  dsimp only
  rw [← List.append_assoc, List.foldl_append, drained_abandonments]
  exact List.mem_append_right _ ha

/-- A pass that drained its connections has no eviction left. -/
theorem drain_empties (s : Server) :
    ∀ c ∈ s.drainPendingCacheEvictions.2.connections, c.pendingCacheEvictions = [] := by
  have hloop : ∀ n, ((List.range n).foldl Server.drainOne ([], s)).2.connections.length =
        s.connections.length ∧ ∀ i < n, ∀ c,
      ((List.range n).foldl Server.drainOne ([], s)).2.connections[i]? = some c →
        c.pendingCacheEvictions = [] := by
    intro n
    induction n with
    | zero => exact ⟨rfl, fun i hi => absurd hi (Nat.not_lt_zero i)⟩
    | succ n ih =>
      rw [List.range_succ, List.foldl_append, List.foldl_cons, List.foldl_nil]
      generalize (List.range n).foldl Server.drainOne ([], s) = d at ih
      unfold Server.drainOne
      split
      · rename_i hnone
        refine ⟨ih.1, fun i hi c hc => ih.2 i ?_ c hc⟩
        have hne : i ≠ n := by
          rintro rfl
          rw [hnone] at hc
          cases hc
        omega
      · rename_i d hd
        refine ⟨by simpa using ih.1, fun i hi c hc => ?_⟩
        dsimp only at hc
        rw [List.getElem?_set] at hc
        split at hc
        · split at hc
          · cases hc
            exact note_all_evictions _ _
          · cases hc
        · exact ih.2 i (by omega) c hc
  intro c hc
  obtain ⟨hlength, hempty⟩ := hloop s.connections.length
  obtain ⟨i, hi⟩ := List.mem_iff_getElem?.mp hc
  have hlt := (List.getElem?_eq_some_iff.mp hi).1
  exact hempty i (hlength ▸ hlt) c hi

theorem release_stages (routes : List RouteKey) (st : Stage) (hb : st.batch = []) :
    Stages cfg st { st with
      server := routes.foldl Server.releaseInjectedRoute st.server
      past := st.past ++ routes.map ServerEvent.released } := by
  induction routes generalizing st with
  | nil => simpa using ReflTransGen.refl
  | cons route routes ih =>
    have hstep : Stage.Move cfg st _ := .inr (.release route hb)
    have hrest := ih { st with
      server := st.server.releaseInjectedRoute route, past := st.past ++ [.released route] } hb
    simp only [List.append_assoc, List.singleton_append] at hrest
    exact ReflTransGen.head hstep hrest

/-- The routes of a closed connection are released. -/
theorem leave_vacate (st : Stage) (i : Nat) (t : Session) (events : List ServerEvent)
    (connId : Nat) :
    Stage.Move cfg (Stage.leave st i t events)
      (Stage.leave st i ⟨t.conn, t.routes.releaseAll connId⟩ events) :=
  .inr (.vacate connId)

/-- Receiving from one connection, step by step. -/
theorem recv_one_stages (input : PassInput) (p : Pass) (i : Nat) :
    Stages cfg (Pass.stage [] past p)
      (Pass.stage [] past (Pass.recvAndReapOne cfg.codec input p i)) := by
  unfold Pass.recvAndReapOne
  split
  · exact .refl
  · rename_i c hc
    dsimp only
    have hrecv := receive_one_stages cfg (Pass.stage [] past p) rfl
      (s := ⟨c, p.server.activePublishRoutes⟩) (input.conns c.connId) hc rfl
    generalize Pass.receiveOne cfg.codec (input.conns c.connId)
      ⟨c, p.server.activePublishRoutes⟩ = r at hrecv
    obtain ⟨closes, t, trace⟩ := r
    dsimp only at hrecv ⊢
    have hrearm := leave_aside cfg (Pass.stage [] past p) (i := i) hc (t := t) trace
      (rearm_aside t.conn (input.conns c.connId).now)
    generalize t.conn.rearmDeferredInitReplay (input.conns c.connId).now = d at hrearm
    have hready := hrecv.tail (.inl hrearm)
    have hreplayed : ∃ fails e sent, (if (!closes && !(p.evictionsQueued ||
        !t.conn.pendingCacheEvictions.isEmpty) && d.needsInitFrames) = true then
          Pass.replayAtOnce cfg.codec p.server.cache (input.conns c.connId).replaySocket d
        else (false, d, [])) = (fails, e, sent) ∧
        Stages cfg (Pass.stage [] past p) (Stage.leave (Pass.stage [] past p) i
          ⟨e, t.routes⟩ (trace ++ e.replayed sent)) := by
      split
      · have hreplay := replay_at_once_stages cfg (Pass.stage [] past p) (i := i)
          hc (input.conns c.connId).replaySocket ⟨d, t.routes⟩ trace
        exact ⟨_, _, _, rfl, hready.trans (stages_of_calm hreplay)⟩
      · refine ⟨_, _, _, rfl, ?_⟩
        simpa [Conn.replayed] using hready
    obtain ⟨fails, e, sent, heq, hpath⟩ := hreplayed
    rw [heq]
    dsimp only
    rw [List.append_assoc, stage_leave]
    split
    · exact hpath.tail (leave_vacate cfg _ i ⟨e, t.routes⟩ _ e.connId)
    · exact hpath

theorem recv_stages (input : PassInput) (p : Pass) :
    Stages cfg (Pass.stage [] past p)
      (Pass.stage [] past (Pass.recvAndReapConnections cfg.codec input p)) :=
  Rows.foldl_path (fun p i => recv_one_stages cfg past input p i) _ p

theorem detach_one_stages (closedIds : List Nat) (p : Pass) (i : Nat) :
    Stages cfg (Pass.stage [] past p)
      (Pass.stage [] past (Pass.detachOne cfg.codec closedIds p i)) := by
  unfold Pass.detachOne
  split
  · exact .refl
  · rename_i c hc
    split
    · exact .refl
    · rename_i hlost
      rw [not_or, not_or] at hlost
      cases hclaimed : c.claimedPublishRoute with
      | none => simp [hclaimed] at hlost
      | some claimed =>
        have hl : p.server.activePublishRoutes.lookup (c.app, claimed) ≠ some c.connId := by
          simpa [hclaimed] using hlost.2.2
        have hstep : Stage.Stir cfg (Pass.stage [] past p) _ := .detach i c claimed hc hclaimed hl rfl
        have heq : Session.perform cfg.codec .detach ⟨c, p.server.activePublishRoutes⟩ =
            (.ok false, ⟨c.detachLostPublishRoute, p.server.activePublishRoutes⟩,
              [.turn c .detach c.detachLostPublishRoute]) := rfl
        rw [heq]
        dsimp only
        rw [stage_leave]
        exact .single (.inr hstep)

theorem detach_still (p : Pass) :
    ∃ events, Still events ∧
      (Pass.detachDisplacedRouteOwners cfg.codec p).trace = p.trace ++ events := by
  have hround : ∀ closedIds p i, ∃ events, Still events ∧
      (Pass.detachOne cfg.codec closedIds p i).trace = p.trace ++ events := by
    intro closedIds p i
    unfold Pass.detachOne
    split
    · exact ⟨[], by simp [Still], (List.append_nil _).symm⟩
    · split
      · exact ⟨[], by simp [Still], (List.append_nil _).symm⟩
      · refine ⟨_, ?_, rfl⟩
        intro c act d hmem
        cases List.mem_singleton.mp hmem
        rfl
  have hloop : ∀ closedIds (l : List Nat) p, ∃ events, Still events ∧
      (l.foldl (Pass.detachOne cfg.codec closedIds) p).trace = p.trace ++ events := by
    intro closedIds l
    induction l with
    | nil => exact fun p => ⟨[], by simp [Still], (List.append_nil _).symm⟩
    | cons i l ih =>
      intro p
      obtain ⟨events, hstill, htrace⟩ := hround closedIds p i
      obtain ⟨more, hstill', htrace'⟩ := ih (Pass.detachOne cfg.codec closedIds p i)
      exact ⟨events ++ more, hstill.append hstill', by
        rw [List.foldl_cons, htrace', htrace, List.append_assoc]⟩
  exact hloop _ _ p

theorem detach_stages (p : Pass) :
    Stages cfg (Pass.stage [] past p)
      (Pass.stage [] past (Pass.detachDisplacedRouteOwners cfg.codec p)) :=
  Rows.foldl_path (fun p i => detach_one_stages cfg past _ p i) _ p

theorem replay_one_stages (p : Pass) (i : Nat) :
    CalmStages cfg (Pass.stage batch past p)
      (Pass.stage batch past (Pass.replayOne cfg.codec p i)) := by
  unfold Pass.replayOne
  split
  · exact .refl
  · rename_i c hc
    have hstep : Stage.Calm cfg (Pass.stage batch past p) _ := .replay i c hc
    have hid := replay_conn_id cfg.codec p.server.cache c
    dsimp only
    rw [stage_leave, replayed_congr hid]
    exact .single hstep

theorem replay_stages (p : Pass) :
    CalmStages cfg (Pass.stage batch past p)
      (Pass.stage batch past (Pass.replayInitFramesForNewPlayers cfg.codec p)) :=
  Rows.foldl_path (fun p i => replay_one_stages cfg batch past p i) _ p

theorem flush_one_stages (input : PassInput) (p : Pass) (i : Nat) :
    CalmStages cfg (Pass.stage batch past p)
      (Pass.stage batch past (Pass.flushOne input p i)) := by
  unfold Pass.flushOne
  split
  · exact .refl
  · rename_i c hc
    exact .single (aside_calm cfg (Pass.stage batch past p) hc
      (ping_and_flush_aside (input.conns c.connId) c))

theorem flush_stages (input : PassInput) (p : Pass) :
    CalmStages cfg (Pass.stage batch past p)
      (Pass.stage batch past (Pass.flushConnections input p)) :=
  Rows.foldl_path (fun p i => flush_one_stages cfg batch past input p i) _ p

theorem remove_one_stages (p : Pass) (i : Nat) :
    Stages cfg (Pass.stage [] past p) (Pass.stage [] past (Pass.removeOne p i)) := by
  cases hc : p.server.connections[i]? with
  | none =>
    unfold Pass.removeOne
    rw [hc]
  | some c =>
    have hstep : Stage.Stir cfg (Pass.stage [] past p) _ := .remove i c hc rfl
    have heq : Pass.stage [] past (Pass.removeOne p i) =
        { Pass.stage [] past p with
          server := (Pass.removeOne { server := (Pass.stage [] past p).server } i).server
          past := (Pass.stage [] past p).past ++ [.closed c.connId] } := by
      unfold Pass.removeOne
      simp [Pass.stage, hc]
    rw [heq]
    exact .single (.inr hstep)

theorem remove_stages (p : Pass) :
    Stages cfg (Pass.stage [] past p)
      (Pass.stage [] past (Pass.removeClosedConnections p)) :=
  Rows.foldl_path (fun p i => remove_one_stages cfg past p i) _ p

end Phases

end LibRtmp.Proofs
