import LibRtmp.Proofs.StageMoves

namespace LibRtmp.Proofs

open Relation (ReflTransGen)

section Offering

variable (limits : PlayerFlowLimits) (now : Nat) (delivery : FrameDelivery) (frameIndex : Nat)
  (frame : RelayFrame)

/-- A frame that no player may miss is queued for the player, or the player is dropped. -/
theorem critical_reaches (hd : ∀ c, delivery.forPlayer c = .critical) (connIndex : Nat) (c : Conn)
    (staged : StagedRelayMedia) :
    (relayFrameToPlayer limits now delivery connIndex c frameIndex frame staged).1 = .delivered ∨
      (relayFrameToPlayer limits now delivery connIndex c frameIndex frame staged).2.1.transport =
        none := by
  unfold relayFrameToPlayer playerFlowDecision
  rw [hd c]
  dsimp only
  split
  · rename_i d hflow
    split at hflow
    · cases hflow
    · simp at hflow
  · exact .inr rfl
  · generalize deliverFrame connIndex _ frameIndex frame staged = r
    obtain ⟨r, e, staged⟩ := r
    cases r with
    | error _ => exact .inr rfl
    | ok _ => exact .inl rfl

structure Offered (delivery : FrameDelivery) (frame : RelayFrame) (players : List Nat)
    (f f' : Fanout) (reports : List (Nat × RelayFrame × PlayerOutcome)) : Prop where
  reported : f'.reports = f.reports ++ reports
  aside : List.Forall₂ Aside f.connections f'.connections
  within : ∀ r ∈ reports, r.2.1 = frame ∧ r.1 ∈ players
  critical : (∀ c, delivery.forPlayer c = .critical) → ∀ i ∈ players, ∀ c', f'.connections[i]? =
    some c' → (i, frame, PlayerOutcome.delivered) ∈ reports ∨ c'.transport = none

theorem offer_one (f : Fanout) (i : Nat) :
    ∃ reports, Offered delivery frame [i] f
      (f.offer limits now delivery frameIndex frame i) reports := by
  unfold Fanout.offer
  split
  · rename_i hnone
    refine ⟨[], by simp, Rows.forall₂_refl Aside.refl _, by simp, ?_⟩
    intro _ j hj c' hc'
    rw [List.mem_singleton.mp hj, hnone] at hc'
    cases hc'
  · rename_i c hc
    have haside := relay_to_player_aside limits now delivery i c frameIndex frame f.staged
    have hcritical := critical_reaches limits now delivery frameIndex frame
    generalize hr : relayFrameToPlayer limits now delivery i c frameIndex frame f.staged = r
      at haside
    obtain ⟨outcome, d, staged⟩ := r
    refine ⟨[(i, frame, outcome)], rfl, Rows.forall₂_set Aside.refl hc haside, by simp, ?_⟩
    intro hd j hj c' hc'
    rw [List.mem_singleton.mp hj] at hc' ⊢
    have hlt : i < f.connections.length := (List.getElem?_eq_some_iff.mp hc).1
    rw [List.getElem?_set_self hlt] at hc'
    cases hc'
    have hreach := hcritical hd i c f.staged
    rw [hr] at hreach
    rcases hreach with hsent | hgone
    · exact .inl (by rw [← show outcome = .delivered from hsent]; simp)
    · exact .inr hgone

theorem Offered.append {delivery : FrameDelivery} {frame : RelayFrame} {players more : List Nat}
    {f f' f'' : Fanout} {reports reports' : List (Nat × RelayFrame × PlayerOutcome)}
    (h : Offered delivery frame players f f' reports)
    (h' : Offered delivery frame more f' f'' reports') :
    Offered delivery frame (players ++ more) f f'' (reports ++ reports') := by
  refine ⟨?_, Rows.forall₂_trans Aside.trans h.aside h'.aside, ?_, ?_⟩
  · rw [h'.reported, h.reported, List.append_assoc]
  · intro r hr
    rcases List.mem_append.mp hr with hr | hr
    · exact ⟨(h.within r hr).1, List.mem_append.mpr (.inl (h.within r hr).2)⟩
    · exact ⟨(h'.within r hr).1, List.mem_append.mpr (.inr (h'.within r hr).2)⟩
  · intro hd i hi c' hc'
    rcases List.mem_append.mp hi with hi | hi
    · obtain ⟨d, hd', haside⟩ := Rows.forall₂_row_back h'.aside hc'
      rcases h.critical hd i hi d hd' with hsent | hgone
      · exact .inl (List.mem_append.mpr (.inl hsent))
      · exact .inr (haside.gone hgone)
    · rcases h'.critical hd i hi c' hc' with hsent | hgone
      · exact .inl (List.mem_append.mpr (.inr hsent))
      · exact .inr hgone

theorem offer_all (players : List Nat) (f : Fanout) :
    ∃ reports, Offered delivery frame players f
      (players.foldl (Fanout.offer limits now delivery frameIndex frame) f) reports := by
  induction players generalizing f with
  | nil => exact ⟨[], by simp, Rows.forall₂_refl Aside.refl _, by simp, by simp⟩
  | cons i players ih =>
    obtain ⟨reports, hfirst⟩ := offer_one limits now delivery frameIndex frame f i
    obtain ⟨more, hrest⟩ := ih (f.offer limits now delivery frameIndex frame i)
    exact ⟨reports ++ more, hfirst.append hrest⟩

end Offering

variable (cfg : CacheConfig) (settings : ServerSettings) (now : Nat) (abandoned : List Abandoned)

/-- A frame the codec calls critical is critical for every player. -/
theorem handle_critical (frame : RelayFrame) (t : CacheTable) (p : Prop) [Decidable p]
    (h : ∀ video, cfg.codec.deliveryHint frame.frameType frame.cachedPayload video = .critical)
    (c : Conn) :
    (if p then FrameDelivery.always else frameDelivery cfg.codec t frame).forPlayer c =
      .critical := by
  split
  · simp [FrameDelivery.always, FrameDelivery.forPlayer]
  · unfold frameDelivery FrameDelivery.forPlayer
    simp [h]

theorem relay_players_receive {codec : Codec} {connections : List Conn} {frame : RelayFrame}
    {i : Nat} (h : i ∈ relayPlayers codec connections frame) :
    ∃ c, connections[i]? = some c ∧ connWillReceiveRelayFrame codec c frame = true := by
  unfold relayPlayers at h
  obtain ⟨_, hany⟩ := List.mem_filter.mp h
  cases hc : connections[i]? with
  | none => simp [hc] at hany
  | some c => exact ⟨c, rfl, by simpa [hc] using hany⟩

theorem mem_relay_players {codec : Codec} {connections : List Conn} {frame : RelayFrame} {i : Nat}
    {c : Conn} (hc : connections[i]? = some c)
    (hr : connWillReceiveRelayFrame codec c frame = true) :
    i ∈ relayPlayers codec connections frame := by
  unfold relayPlayers
  refine List.mem_filter.mpr ⟨List.mem_range.mpr (List.getElem?_eq_some_iff.mp hc).1, ?_⟩
  simp [hc, hr]

/-- Handling a frame caches it and offers it to its players. -/
theorem handle_offers (frame : RelayFrame) (r : Relaying) :
    ∃ events, Offers cfg.codec frame r.fanout.connections
        (r.handle cfg settings now abandoned frame
          (relayPlayers cfg.codec r.fanout.connections frame)).fanout.connections events ∧
      (r.handle cfg settings now abandoned frame
        (relayPlayers cfg.codec r.fanout.connections frame)).trace =
        r.trace ++ .handled frame r.cache (Server.cacheRelayFrameUnlessOrphaned cfg abandoned
          r.fanout.connections r.cache frame) :: events := by
  unfold Relaying.handle Fanout.frame
  dsimp only
  generalize hplayers : relayPlayers cfg.codec r.fanout.connections frame = players
  generalize hcache : Server.cacheRelayFrameUnlessOrphaned cfg abandoned r.fanout.connections
    r.cache frame = cache
  have hcritical := handle_critical cfg frame cache
    (players.isEmpty = true ∨ settings.limits.soft = 0)
  generalize (if players.isEmpty = true ∨ settings.limits.soft = 0 then FrameDelivery.always
    else frameDelivery cfg.codec cache frame) = delivery at hcritical
  obtain ⟨reports, hoff⟩ := offer_all settings.limits now delivery r.frameIndex frame players
    r.fanout
  generalize players.foldl (Fanout.offer settings.limits now delivery r.frameIndex frame) r.fanout =
    f at hoff
  refine ⟨_, ⟨hoff.aside, ?_, ?_⟩, rfl⟩
  · intro e he
    rw [hoff.reported, List.drop_left] at he
    obtain ⟨report, hmem, hsome⟩ := List.mem_filterMap.mp he
    obtain ⟨hframe, hplayer⟩ := hoff.within report hmem
    split at hsome
    · obtain ⟨d, hd, rfl⟩ := Option.map_eq_some_iff.mp hsome
      obtain ⟨c, hc, haside⟩ := Rows.forall₂_row_back hoff.aside hd
      rw [← hplayers] at hplayer
      obtain ⟨c', hc', hreceives⟩ := relay_players_receive hplayer
      rw [hc] at hc'
      cases hc'
      rw [hframe, haside.unseen.conn_id]
      exact ⟨c, List.mem_of_getElem? hc, rfl, hreceives⟩
    · cases hsome
  · intro hcrit i c c' hc hc' hreceives
    have hplayer := mem_relay_players hc hreceives
    rw [hplayers] at hplayer
    rcases hoff.critical (hcritical hcrit) i hplayer c' hc' with hsent | hgone
    · right
      rw [hoff.reported, List.drop_left]
      refine List.mem_filterMap.mpr ⟨_, hsent, ?_⟩
      obtain ⟨d, hd, haside⟩ := Rows.forall₂_row hoff.aside hc
      have hd' : f.connections[i]? = some d := hd
      simp [hd', haside.unseen.conn_id]
    · exact .inl hgone

def Relaying.stage (s : Server) (batch : List RelayFrame) (past : List ServerEvent)
    (r : Relaying) : Stage :=
  ⟨{ s with connections := r.fanout.connections, cache := r.cache }, batch, past ++ r.trace⟩

theorem pending_unseen {connections connections' : List Conn}
    (h : List.Forall₂ Unseen connections connections') :
    connections'.flatMap Conn.pendingRelay = connections.flatMap Conn.pendingRelay := by
  rw [List.flatMap_def, List.flatMap_def]
  congr 1
  exact Rows.forall₂_map_eq h fun hu => congrArg Ledger.relay (hu ∅)

theorem pending_aside {connections connections' : List Conn}
    (h : List.Forall₂ Aside connections connections') :
    connections'.flatMap Conn.pendingRelay = connections.flatMap Conn.pendingRelay :=
  pending_unseen (h.imp fun _ _ ha => ha.unseen)

/-- The relay loop handles frames one after the other. -/
theorem relaying_stages (s : Server) (past : List ServerEvent) (frames : List RelayFrame)
    (r : Relaying) (hn : (Relaying.stage s frames past r).Noted abandoned)
    (hq : (Relaying.stage s frames past r).server.queued = []) :
    CalmStages cfg (Relaying.stage s frames past r)
      (Relaying.stage s (Relaying.run cfg settings now abandoned frames r).2 past
        (Relaying.run cfg settings now abandoned frames r).1) := by
  induction frames generalizing r with
  | nil => exact .refl
  | cons frame frames ih =>
    unfold Relaying.run
    dsimp only
    split
    · exact .refl
    · obtain ⟨events, hoffers, htrace⟩ := handle_offers cfg settings now abandoned frame r
      have hstep : Stage.Calm cfg (Relaying.stage s (frame :: frames) past r)
          (Relaying.stage s frames past (r.handle cfg settings now abandoned frame
            (relayPlayers cfg.codec r.fanout.connections frame))) := by
        have h : Stage.Calm cfg (Relaying.stage s (frame :: frames) past r) _ :=
          .handle frame frames abandoned _ _ events rfl hq hn hoffers rfl
        unfold Relaying.stage at h ⊢
        rw [htrace, ← List.append_assoc]
        exact h
      refine ReflTransGen.head hstep (ih _ (Stage.Noted.mono hn (calm_past hstep)) ?_)
      unfold Relaying.stage Server.queued at hq ⊢
      dsimp only at hq ⊢
      rw [pending_aside hoffers.aside]
      exact hq

theorem send_to_aside (m : StagedRelayMedia) (sockets : Nat → Socket)
    (s : List Conn × List Nat × List (Nat × List UInt8)) (i : Nat) :
    List.Forall₂ Aside s.1 (m.sendTo sockets s i).1 := by
  obtain ⟨connections, closed, taken⟩ := s
  unfold StagedRelayMedia.sendTo
  dsimp only
  split
  · exact Rows.forall₂_refl Aside.refl _
  · rename_i c hc
    split
    · exact Rows.forall₂_refl Aside.refl _
    · have hsend := send_staged_aside c (sockets i) (m.parts i)
      generalize c.sendStagedMedia (sockets i) (m.parts i) = r at hsend
      obtain ⟨r, d, bytes⟩ := r
      cases r with
      | ok _ => exact Rows.forall₂_set Aside.refl hc hsend
      | error _ => exact Rows.forall₂_set Aside.refl hc (hsend.trans (stop_player_aside d))

theorem staged_send_aside (m : StagedRelayMedia) (sockets : Nat → Socket) (connections : List Conn)
    (closed : List Nat) : List.Forall₂ Aside connections (m.send sockets connections closed).1 := by
  have hloop : ∀ (owners : List Nat) s,
      List.Forall₂ Aside s.1 (owners.foldl (m.sendTo sockets) s).1 := by
    intro owners
    induction owners with
    | nil => exact fun s => Rows.forall₂_refl Aside.refl _
    | cons i owners ih =>
      exact fun s => Rows.forall₂_trans Aside.trans (send_to_aside m sockets s i) (ih _)
  exact hloop _ (connections, closed, [])

theorem requeue_stages (s : Server) (past : List ServerEvent) (frames : List RelayFrame) :
    CalmStages cfg ⟨s, frames, past⟩ ⟨frames.foldl Server.requeueRelayFrame s, [], past⟩ := by
  induction frames generalizing s with
  | nil => exact .refl
  | cons frame frames ih =>
    exact ReflTransGen.head (.requeue frame frames rfl) (ih (s.requeueRelayFrame frame))

/-- The fan-out of a batch, step by step. -/
theorem send_stages (input : PassInput) (frames : List RelayFrame) (past : List ServerEvent)
    (p : Pass) (hn : (Pass.stage frames past p).Noted abandoned) (hq : p.server.queued = []) :
    CalmStages cfg (Pass.stage frames past p)
      (Pass.stage [] past (Pass.sendAndExportRelayFrames cfg input abandoned frames p)) := by
  unfold Pass.sendAndExportRelayFrames
  dsimp only
  have hrun := relaying_stages cfg p.server.settings input.now abandoned p.server (past ++ p.trace)
    frames
    { fanout := { connections := p.server.connections, closed := p.closed }
      cache := p.server.cache
      relaySends := input.relaySends }
    (fun a ha => by simpa [Relaying.stage, Pass.stage] using hn ha) hq
  have hstart : Relaying.stage p.server frames (past ++ p.trace)
      { fanout := { connections := p.server.connections, closed := p.closed }
        cache := p.server.cache
        relaySends := input.relaySends } = Pass.stage frames past p := by
    simp [Relaying.stage, Pass.stage]
  rw [hstart] at hrun
  generalize Relaying.run cfg p.server.settings input.now abandoned frames
    { fanout := { connections := p.server.connections, closed := p.closed }
      cache := p.server.cache
      relaySends := input.relaySends } = r at hrun
  obtain ⟨r, rest⟩ := r
  dsimp only at hrun ⊢
  generalize (fun i : Nat => (r.fanout.connections[i]?.map (fun c =>
    (input.conns (Conn.connId c)).stagedSocket)).getD []) = sockets
  have hsend := staged_send_aside r.fanout.staged sockets r.fanout.connections r.fanout.closed
  generalize r.fanout.staged.send sockets r.fanout.connections r.fanout.closed = sent at hsend
  obtain ⟨connections, closed, taken⟩ := sent
  have haside : Stage.Calm cfg (Relaying.stage p.server rest (past ++ p.trace) r) _ :=
    .aside connections hsend
  have hrequeue := requeue_stages cfg
    { p.server with connections, cache := r.cache } (past ++ p.trace ++ r.trace) rest
  have hpath := (hrun.tail haside).trans hrequeue
  rw [List.append_assoc] at hpath
  exact hpath

end LibRtmp.Proofs
