import LibRtmp.Proofs.Fairness

namespace LibRtmp.Proofs

/-- The reports of attempted deliveries; a skipped or dropped player is not one. -/
def attempts (reports : List (Nat × RelayFrame × PlayerOutcome)) : Nat :=
  (reports.filter (fun report =>
    report.2.2 = .delivered ∨ report.2.2 = .deliveryFailed)).length

/-- The largest number of players that a single frame has. -/
def largestAudience (codec : Codec) (connections : List Conn) (frames : List RelayFrame) : Nat :=
  (frames.map (fun f => (relayPlayers codec connections f).length)).foldr max 0

section Counting

variable (cfg : CacheConfig) (settings : ServerSettings) (now : Nat) (abandoned : List Abandoned)
  (frame : RelayFrame)

theorem attempts_append (reports more : List (Nat × RelayFrame × PlayerOutcome)) :
    attempts (reports ++ more) = attempts reports + attempts more := by
  unfold attempts
  rw [List.filter_append, List.length_append]

theorem offers_report (limits : PlayerFlowLimits) (delivery : FrameDelivery) (frameIndex : Nat)
    (players : List Nat) (f : Fanout) :
    ∃ reports, (players.foldl (Fanout.offer limits now delivery frameIndex frame) f).reports =
      f.reports ++ reports ∧ reports.length ≤ players.length := by
  induction players generalizing f with
  | nil => exact ⟨[], by simp, Nat.le_refl 0⟩
  | cons i players ih =>
    obtain ⟨more, hmore, hlen⟩ := ih (f.offer limits now delivery frameIndex frame i)
    rw [List.foldl_cons, hmore]
    unfold Fanout.offer
    split
    · exact ⟨more, rfl, Nat.le_succ_of_le hlen⟩
    · refine ⟨_ :: more, List.append_assoc _ _ _, Nat.succ_le_succ hlen⟩

/-- A handled frame is charged one send for each attempt. -/
theorem handle_charges (players : List Nat) (r : Relaying) :
    ∃ sends ≤ players.length,
      (r.handle cfg settings now abandoned frame players).relaySends = r.relaySends + sends ∧
      attempts (r.handle cfg settings now abandoned frame players).fanout.reports =
        attempts r.fanout.reports + sends := by
  unfold Relaying.handle Fanout.frame
  dsimp only
  generalize (if players.isEmpty = true ∨ settings.limits.soft = 0 then FrameDelivery.always
    else frameDelivery cfg.codec _ frame) = delivery
  obtain ⟨reports, heq, hlen⟩ := offers_report now frame settings.limits delivery r.frameIndex
    players r.fanout
  refine ⟨attempts reports, (List.length_filter_le _ reports).trans hlen, ?_, ?_⟩
  · rw [heq, List.drop_left]
    rfl
  · rw [heq, attempts_append]

/-- The charge of a relay loop is the number of its attempts. -/
theorem run_charges (frames : List RelayFrame) (r : Relaying) :
    ∃ sends, (Relaying.run cfg settings now abandoned frames r).1.relaySends =
        r.relaySends + sends ∧
      attempts (Relaying.run cfg settings now abandoned frames r).1.fanout.reports =
        attempts r.fanout.reports + sends := by
  induction frames generalizing r with
  | nil => exact ⟨0, rfl, rfl⟩
  | cons frame frames ih =>
    unfold Relaying.run
    dsimp only
    split
    · exact ⟨0, rfl, rfl⟩
    · obtain ⟨sends, _, hsends, hattempts⟩ := handle_charges cfg settings now abandoned frame
        (relayPlayers cfg.codec r.fanout.connections frame) r
      obtain ⟨more, hmore, hattempts'⟩ := ih (r.handle cfg settings now abandoned frame
        (relayPlayers cfg.codec r.fanout.connections frame))
      refine ⟨sends + more, ?_, ?_⟩
      · rw [hmore, hsends, Nat.add_assoc]
      · rw [hattempts', hattempts, Nat.add_assoc]

/-- A frame that a connection will still get after other output it would have got before. -/
theorem aside_received {codec : Codec} {c d : Conn} (ha : Aside c d)
    (h : connWillReceiveRelayFrame codec d frame = true) :
    connWillReceiveRelayFrame codec c frame = true := by
  have hthere : d.transport ≠ none := by
    intro hgone
    unfold connWillReceiveRelayFrame at h
    split at h
    · cases h
    · simp [hgone] at h
  have happ : d.app = c.app := congrArg Ledger.app (ha.unseen ∅)
  have hwaiting : d.pendingAuth = c.pendingAuth := congrArg Ledger.waiting (ha.unseen ∅)
  have hkey : d.relayRouteKey = c.relayRouteKey := by
    unfold Conn.relayRouteKey
    rw [ha.relayKey, ha.stream]
  have hmulti : d.acceptsMultitrack = c.acceptsMultitrack := by
    unfold Conn.acceptsMultitrack
    rw [ha.caps]
  have henabled : d.relayEnabled = c.relayEnabled := (ha.waits.resolve_left hthere).1
  have htransport : c.transport.isSome = true := by
    rw [Option.isSome_iff_ne_none]
    exact fun hgone => hthere (ha.gone hgone)
  have htransport' : d.transport.isSome = true := Option.isSome_iff_ne_none.mpr hthere
  unfold connWillReceiveRelayFrame at h ⊢
  rw [ha.stream, henabled, htransport', happ, hkey, hwaiting, hmulti] at h
  rw [htransport]
  exact h

theorem audience_shrinks (codec : Codec) {connections connections' : List Conn}
    (h : List.Forall₂ Aside connections connections') :
    (relayPlayers codec connections' frame).length ≤
      (relayPlayers codec connections frame).length := by
  unfold relayPlayers
  rw [h.length_eq]
  refine (List.monotone_filter_right _ fun i hi => ?_).length_le
  cases hd : connections'[i]? with
  | none => simp [hd] at hi
  | some d =>
    rw [hd] at hi
    obtain ⟨c, hc, ha⟩ := Rows.forall₂_row_back h hd
    rw [hc]
    exact aside_received frame ha hi

/-- A frame may add anything to no charge, and otherwise what the budget has room for. -/
theorem charge_within {sends more players budget bound : Nat} (limit : Nat)
    (hmore : more ≤ players) (hplayers : players ≤ bound)
    (h : 0 < sends → min (sends + players) limit ≤ budget) :
    min (sends + more) limit ≤ max budget bound := by
  omega

/-- The charge stays within the budget, or within the audience of the frame that went first. -/
theorem run_within {bound : Nat} (frames : List RelayFrame) (r : Relaying)
    (hbound : ∀ f ∈ frames, (relayPlayers cfg.codec r.fanout.connections f).length ≤ bound)
    (h : min r.relaySends usizeMax ≤ max settings.maxRelaySendsPerPoll bound) :
    min (Relaying.run cfg settings now abandoned frames r).1.relaySends usizeMax ≤
      max settings.maxRelaySendsPerPoll bound := by
  induction frames generalizing r with
  | nil => exact h
  | cons frame frames ih =>
    unfold Relaying.run
    dsimp only
    split
    · exact h
    · rename_i hallowed
      obtain ⟨sends, hle, hsends, _⟩ := handle_charges cfg settings now abandoned frame
        (relayPlayers cfg.codec r.fanout.connections frame) r
      obtain ⟨_, hoffers, _⟩ := handle_offers cfg settings now abandoned frame r
      have hfirst := hbound frame List.mem_cons_self
      refine ih _ (fun f hf => ?_) ?_
      · exact (audience_shrinks f cfg.codec hoffers.aside).trans
          (hbound f (List.mem_cons_of_mem _ hf))
      · rw [hsends]
        cases hplayers : relayPlayers cfg.codec r.fanout.connections frame with
        | nil =>
          rw [hplayers, List.length_nil] at hle
          rw [Nat.le_zero.mp hle]
          exact h
        | cons i players =>
          rw [hplayers] at hle hallowed hfirst
          refine charge_within usizeMax hle hfirst fun hsent => ?_
          have hroom : ¬ satAdd r.relaySends (i :: players).length > settings.maxRelaySendsPerPoll :=
            fun hover => hallowed ⟨List.cons_ne_nil _ _, hsent, hover⟩
          exact Nat.not_lt.mp hroom

/-- Frames are handled from the front, and at least one if nothing was charged yet. -/
theorem run_handles (frames : List RelayFrame) (r : Relaying) :
    ∃ done, frames = done ++ (Relaying.run cfg settings now abandoned frames r).2 ∧
      handledFrames (Relaying.run cfg settings now abandoned frames r).1.trace =
        handledFrames r.trace ++ done ∧
      (r.relaySends = 0 → frames ≠ [] → done ≠ []) := by
  induction frames generalizing r with
  | nil => exact ⟨[], rfl, (List.append_nil _).symm, fun _ h => h⟩
  | cons frame frames ih =>
    unfold Relaying.run
    dsimp only
    split
    · rename_i hover
      exact ⟨[], rfl, (List.append_nil _).symm, fun hzero _ => absurd hover.2.1 (by omega)⟩
    · obtain ⟨events, hoffers, htrace⟩ := handle_offers cfg settings now abandoned frame r
      obtain ⟨done, hframes, hhandled, _⟩ := ih (r.handle cfg settings now abandoned frame
        (relayPlayers cfg.codec r.fanout.connections frame))
      refine ⟨frame :: done, congrArg (frame :: ·) hframes, ?_, fun _ _ => List.cons_ne_nil _ _⟩
      have hsilent : handledFrames events = [] := (offers_silent hoffers).2
      rw [hhandled, htrace, handled_append]
      have hone : ∀ cache, handledFrames (.handled frame r.cache cache :: events) = [frame] := by
        intro cache
        exact congrArg (frame :: ·) hsilent
      rw [hone, List.append_assoc, List.singleton_append]

theorem run_aside (frames : List RelayFrame) (r : Relaying) :
    List.Forall₂ Aside r.fanout.connections
      (Relaying.run cfg settings now abandoned frames r).1.fanout.connections := by
  induction frames generalizing r with
  | nil => exact Rows.forall₂_refl Aside.refl _
  | cons frame frames ih =>
    unfold Relaying.run
    dsimp only
    split
    · exact Rows.forall₂_refl Aside.refl _
    · obtain ⟨_, hoffers, _⟩ := handle_offers cfg settings now abandoned frame r
      exact Rows.forall₂_trans Aside.trans hoffers.aside (ih _)

end Counting

section Passes

variable (cfg : CacheConfig) (input : PassInput) (s : Server)

def passFanout : Relaying × List RelayFrame :=
  let start := (Pass.receivePhase cfg input s).2.beforeFanout cfg (Pass.receivePhase cfg input s).1
  start.2.2.fanout cfg input start.1 start.2.1

def attemptsIn : Nat := attempts (passFanout cfg input s).1.fanout.reports

def audienceIn : Nat :=
  largestAudience cfg.codec (atFanout cfg input s).2.connections (atFanout cfg input s).1

theorem audience_le {codec : Codec} {connections : List Conn} {frames : List RelayFrame}
    {f : RelayFrame} (h : f ∈ frames) :
    (relayPlayers codec connections f).length ≤ largestAudience codec connections frames := by
  unfold largestAudience
  induction frames with
  | nil => cases h
  | cons g frames ih =>
    rw [List.map_cons, List.foldr_cons]
    rcases List.mem_cons.mp h with rfl | h
    · exact Nat.le_max_left _ _
    · exact (ih h).trans (Nat.le_max_right _ _)

theorem before_fanout_same_part {α : Type} {φ : Server → α} (hφ : Bystander φ) (first : List Abandoned)
    (p : Pass) (htake : ∀ t : Server, φ t.buildRelayFrameBatch.2 = φ t) :
    φ (p.beforeFanout cfg first).2.2.server = φ p.server := by
  refine (replay_same_part hφ cfg.codec _).trans ((htake _).trans ?_)
  exact (hφ p.drain.2.server _ _ _ _ _ _ _).trans (drained_same_part hφ p)

theorem fanout_same_part {α : Type} {φ : Server → α} (hφ : Bystander φ)
    (htake : ∀ t : Server, φ t.buildRelayFrameBatch.2 = φ t) :
    φ (atFanout cfg input s).2 = φ s := by
  have hreceived := receive_phase_same_part hφ cfg input s
  unfold atFanout
  generalize Pass.receivePhase cfg input s = received at hreceived
  exact (before_fanout_same_part cfg hφ received.1 received.2 htake).trans hreceived

theorem fanout_settings : (atFanout cfg input s).2.settings = s.settings :=
  fanout_same_part cfg input s settings_bystander fun _ => rfl

theorem sends_after_eq :
    relaySendsAfter cfg input s = (passFanout cfg input s).1.relaySends := by
  unfold relaySendsAfter passFanout
  generalize Pass.receivePhase cfg input s = received
  obtain ⟨first, p⟩ := received
  dsimp only

theorem pass_same_part {α : Type} {φ : Server → α} (hφ : Bystander φ)
    (htake : ∀ t : Server, φ t.buildRelayFrameBatch.2 = φ t) :
    φ (processConnections cfg input s).server = φ s := by
  have hfanout := fanout_same_part cfg input s hφ htake
  have hremove := remove_same_part hφ (Pass.relayPhase cfg input
    (Pass.receivePhase cfg input s).1 (Pass.receivePhase cfg input s).2)
  unfold atFanout at hfanout
  unfold processConnections
  generalize Pass.receivePhase cfg input s = received at hremove hfanout
  obtain ⟨first, p⟩ := received
  dsimp only at hremove hfanout ⊢
  rw [hremove, pass_unfold, flush_same_part hφ]
  generalize p.beforeFanout cfg first = start at hfanout
  obtain ⟨abandoned, frames, q⟩ := start
  refine ((requeue_same_part hφ _ _).trans ?_).trans hfanout
  exact hφ q.server _ _ _ _ _ _ _

theorem pass_settings : (processConnections cfg input s).server.settings = s.settings :=
  pass_same_part cfg input s settings_bystander fun _ => rfl

/-- A pass charges its attempts. -/
theorem pass_charges :
    relaySendsAfter cfg input s = input.relaySends + attemptsIn cfg input s := by
  rw [sends_after_eq]
  unfold attemptsIn passFanout
  generalize (Pass.receivePhase cfg input s).2.beforeFanout cfg
    (Pass.receivePhase cfg input s).1 = start
  obtain ⟨sends, hsends, hattempts⟩ := run_charges cfg start.2.2.server.settings input.now start.1
    start.2.1
    { fanout := { connections := start.2.2.server.connections, closed := start.2.2.closed }
      cache := start.2.2.server.cache
      relaySends := input.relaySends }
  unfold Pass.fanout
  rw [hsends, hattempts]
  exact congrArg (input.relaySends + ·) (Nat.zero_add sends).symm

theorem pass_within {bound : Nat} (hbound : audienceIn cfg input s ≤ bound)
    (h : min input.relaySends usizeMax ≤ max s.settings.maxRelaySendsPerPoll bound) :
    min (relaySendsAfter cfg input s) usizeMax ≤ max s.settings.maxRelaySendsPerPoll bound := by
  rw [sends_after_eq]
  rw [← fanout_settings cfg input s] at h ⊢
  unfold audienceIn at hbound
  unfold atFanout passFanout at *
  dsimp only at *
  generalize (Pass.receivePhase cfg input s).2.beforeFanout cfg
    (Pass.receivePhase cfg input s).1 = start at *
  exact run_within cfg _ input.now _ _ _ (fun f hf => (audience_le hf).trans hbound) h

/-- The frames that a pass handles are those of its fan-out. -/
theorem pass_handled :
    handledFrames (processConnections cfg input s).trace =
      handledFrames (passFanout cfg input s).1.trace := by
  have hreceived := (receive_phase_idles cfg input s).handled
  unfold processConnections passFanout
  generalize Pass.receivePhase cfg input s = received at hreceived
  obtain ⟨first, p⟩ := received
  have hbefore := (fanout_handled cfg first p).trans hreceived
  dsimp only
  rw [(remove_idles _).handled, pass_unfold, (flush_idles input _).handled]
  generalize p.beforeFanout cfg first = start at hbefore
  obtain ⟨abandoned, frames, q⟩ := start
  rw [(send_export_spec cfg input abandoned frames q).1, handled_append, hbefore]
  rfl

/-- A pass with no send charged yet handles a frame of its batch, if there is one. -/
theorem pass_progress (hzero : input.relaySends = 0) (hbatch : (atFanout cfg input s).1 ≠ []) :
    handledFrames (processConnections cfg input s).trace ≠ [] := by
  rw [pass_handled]
  unfold atFanout at hbatch
  unfold passFanout Pass.fanout
  dsimp only at hbatch ⊢
  generalize (Pass.receivePhase cfg input s).2.beforeFanout cfg
    (Pass.receivePhase cfg input s).1 = start at hbatch
  obtain ⟨done, _, hhandled, hsome⟩ := run_handles cfg start.2.2.server.settings input.now start.1
    start.2.1
    { fanout := { connections := start.2.2.server.connections, closed := start.2.2.closed }
      cache := start.2.2.server.cache
      relaySends := input.relaySends }
  rw [hhandled]
  exact hsome hzero hbatch

end Passes

section Polls

variable (cfg : CacheConfig) (input : PollInput) (s : Server)

def pollPasses : List (PassInput × Server) :=
  let first := { input.first with relaySends := 0 }
  let p := processConnections cfg first s
  let t := p.server.acceptNewConnections input.accepted
  if t.connections.any (fun c => c.connId ≥ p.server.nextConnId) then
    [(first, s),
      ({ input.second with relaySends := relaySendsAfter cfg first s },
        { t with relayInterleaveInjectFirst := s.relayInterleaveInjectFirst })]
  else [(first, s)]

def pollAttempts : Nat := ((pollPasses cfg input s).map (fun x => attemptsIn cfg x.1 x.2)).sum

def pollAudience : Nat :=
  ((pollPasses cfg input s).map (fun x => audienceIn cfg x.1 x.2)).foldr max 0

theorem accept_settings (accepted : List (Nat × Transport × Nat)) (s : Server) :
    (s.acceptNewConnections accepted).settings = s.settings := by
  refine Rows.foldl_same Server.settings (fun s a => ?_) accepted s
  unfold Server.addConnection
  split <;> rfl

theorem first_pass_within {first : PassInput} {bound : Nat} (hfirst : first.relaySends = 0)
    (hbound : audienceIn cfg first s ≤ bound) :
    min (attemptsIn cfg first s) usizeMax ≤ max s.settings.maxRelaySendsPerPoll bound := by
  have hwithin := pass_within cfg first s hbound (by simp [hfirst])
  rw [pass_charges, hfirst, Nat.zero_add] at hwithin
  exact hwithin

/-- Two passes spend one budget if the second goes on counting. -/
theorem two_passes_within {first second : PassInput} {t : Server} (hfirst : first.relaySends = 0)
    (hsecond : second.relaySends = relaySendsAfter cfg first s) (ht : t.settings = s.settings) :
    min (attemptsIn cfg first s + attemptsIn cfg second t) usizeMax ≤
      max s.settings.maxRelaySendsPerPoll
        (max (audienceIn cfg first s) (audienceIn cfg second t)) := by
  have hsent : second.relaySends = attemptsIn cfg first s := by
    rw [hsecond, pass_charges, hfirst, Nat.zero_add]
  have hbefore := first_pass_within cfg s hfirst
    (Nat.le_max_left (audienceIn cfg first s) (audienceIn cfg second t))
  rw [← hsent, ← ht] at hbefore
  have hwithin := pass_within cfg second t (Nat.le_max_right _ _) hbefore
  rw [pass_charges, hsent, ht] at hwithin
  exact hwithin

theorem poll_within :
    min (pollAttempts cfg input s) usizeMax ≤
      max s.settings.maxRelaySendsPerPoll (pollAudience cfg input s) := by
  unfold pollAttempts pollAudience pollPasses
  generalize hfirst : { input.first with relaySends := 0 } = first
  have hzero : first.relaySends = 0 := hfirst ▸ rfl
  have hpass := pass_settings cfg first s
  dsimp only
  generalize processConnections cfg first s = p at hpass
  have haccepted := (accept_settings input.accepted p.server).trans hpass
  generalize hsent : relaySendsAfter cfg first s = sent
  split
  · simp only [List.map_cons, List.map_nil, List.sum_cons, List.sum_nil, List.foldr_cons,
      List.foldr_nil, Nat.add_zero, Nat.max_zero]
    refine two_passes_within cfg s hzero ?_ ?_
    · exact hsent.symm
    · exact haccepted
  · simp only [List.map_cons, List.map_nil, List.sum_cons, List.sum_nil, List.foldr_cons,
      List.foldr_nil, Nat.add_zero, Nat.max_zero]
    exact first_pass_within cfg s hzero (Nat.le_refl _)

end Polls

section Requeueing

def stray (s : Server) (f : RelayFrame) : Bool :=
  !isExternalPublisherId f.publisherConnId &&
    !(s.connections.map Conn.connId).contains f.publisherConnId

def FitsOrphans (s : Server) (frames : List RelayFrame) : Prop :=
  frames.length ≤ maxPendingRelayFrames ∧
    (frames.map RelayFrame.retainedBytes).sum ≤ s.settings.maxPendingRelayBytes

theorem FitsOrphans.sublist {s : Server} {frames fewer : List RelayFrame} (h : FitsOrphans s frames)
    (hs : fewer.Sublist frames) : FitsOrphans s fewer := by
  refine ⟨hs.length_le.trans h.1, Nat.le_trans ?_ h.2⟩
  clear h
  induction hs with
  | slnil => exact Nat.le_refl 0
  | cons f _ ih => exact ih.trans (Nat.le_add_left _ _)
  | cons_cons f _ ih => exact Nat.add_le_add_left ih _

theorem room_kept {bytes maxBytes : Nat} {orphans : List RelayFrame}
    (hlen : orphans.length < maxPendingRelayFrames)
    (hbytes : (orphans.map RelayFrame.retainedBytes).sum + bytes ≤ maxBytes) :
    Server.orphansWithRoomFor bytes maxBytes orphans = orphans := by
  cases orphans with
  | nil => rfl
  | cons f fs =>
    unfold Server.orphansWithRoomFor
    refine if_neg (not_or.mpr ⟨Nat.not_le.mpr hlen, Nat.not_lt.mpr ?_⟩)
    exact (Nat.min_le_left _ _).trans hbytes

/-- An orphan that fits is kept with all the others. -/
theorem push_orphan_kept {s : Server} {frame : RelayFrame}
    (h : FitsOrphans s (s.orphanedRelay ++ [frame])) :
    s.pushOrphanedRelay frame = { s with orphanedRelay := s.orphanedRelay ++ [frame] } := by
  obtain ⟨hlen, hbytes⟩ := h
  simp only [List.length_append, List.length_singleton, List.map_append, List.map_singleton,
    List.sum_append, List.sum_singleton] at hlen hbytes
  unfold Server.pushOrphanedRelay
  rw [if_neg (by omega), room_kept (by omega) hbytes]

theorem pending_put {connections : List Conn} {i : Nat} {c : Conn} (frame : RelayFrame)
    (h : connections[i]? = some c) :
    ((connections.set i { c with pendingRelay := c.pendingRelay ++ [frame] }).flatMap
      Conn.pendingRelay).Perm (connections.flatMap Conn.pendingRelay ++ [frame]) := by
  induction connections generalizing i with
  | nil => cases h
  | cons d connections ih =>
    cases i with
    | zero =>
      cases h
      simp only [List.set_cons_zero, List.flatMap_cons, List.append_assoc]
      exact List.perm_append_comm.append_left _
    | succ i =>
      simp only [List.set_cons_succ, List.flatMap_cons, List.append_assoc]
      exact (ih h).append_left _

/-- A frame put back waits again, and only a stray one becomes an orphan. -/
theorem requeue_one {s : Server} {frame : RelayFrame}
    (h : stray s frame = true → FitsOrphans s (s.orphanedRelay ++ [frame])) :
    (s.requeueRelayFrame frame).queued.Perm (s.queued ++ [frame]) ∧
      (s.requeueRelayFrame frame).connections.map Conn.connId = s.connections.map Conn.connId ∧
      (s.requeueRelayFrame frame).orphanedRelay =
        s.orphanedRelay ++ [frame].filter (stray s) := by
  cases hext : isExternalPublisherId frame.publisherConnId with
  | true =>
    rw [requeue_external hext]
    refine ⟨?_, rfl, ?_⟩
    · simp [Server.queued]
    · simp [stray, hext]
  | false =>
    by_cases hmem : frame.publisherConnId ∈ s.connections.map Conn.connId
    · obtain ⟨i, c, hc, hid, heq⟩ := requeue_row hext hmem
      rw [heq]
      refine ⟨?_, ?_, ?_⟩
      · simp only [Server.queued, Server.put, List.append_assoc]
        refine List.Perm.append_left _ ?_
        refine ((pending_put frame hc).append_right _).trans ?_
        rw [List.append_assoc]
        exact List.perm_append_comm.append_left _
      · have hrows := Rows.forall₂_set (R := fun a b : Conn => b.connId = a.connId) (fun _ => rfl) hc
          (b := { c with pendingRelay := c.pendingRelay ++ [frame] }) rfl
        exact Rows.forall₂_map_eq hrows fun h => h
      · simp [Server.put, stray, hmem]
    · have hstray : stray s frame = true := by simp [stray, hext, hmem]
      have hnone : s.indexOf frame.publisherConnId = none := by
        unfold Server.indexOf
        rw [List.findIdx?_eq_none_iff]
        intro c hc
        simp only [beq_eq_false_iff_ne]
        exact fun hid => hmem (hid ▸ List.mem_map_of_mem hc)
      have heq : s.requeueRelayFrame frame = s.pushOrphanedRelay frame := by
        unfold Server.requeueRelayFrame
        rw [if_neg (by simp [hext]), hnone]
      rw [heq, push_orphan_kept (h hstray)]
      refine ⟨?_, rfl, ?_⟩
      · simp only [Server.queued, List.append_assoc]
        refine List.Perm.append_left _ ?_
        rw [← List.append_assoc (s.connections.flatMap _)]
        exact List.perm_append_comm
      · simp [hstray]

/-- Frames put back all wait again, if the strays among them fit among the orphans. -/
theorem requeue_all (frames : List RelayFrame) {s : Server}
    (h : FitsOrphans s (s.orphanedRelay ++ frames.filter (stray s))) :
    (frames.foldl Server.requeueRelayFrame s).queued.Perm (s.queued ++ frames) := by
  induction frames generalizing s with
  | nil => simp
  | cons frame frames ih =>
    have hfirst : stray s frame = true → FitsOrphans s (s.orphanedRelay ++ [frame]) := by
      intro hstray
      refine h.sublist (List.Sublist.append_left ?_ _)
      rw [List.filter_cons_of_pos hstray]
      exact (List.nil_sublist _).cons_cons frame
    obtain ⟨hqueued, hids, horphans⟩ := requeue_one hfirst
    have hstray : stray (s.requeueRelayFrame frame) = stray s := by
      funext f
      unfold stray
      rw [hids]
    have hfits : FitsOrphans (s.requeueRelayFrame frame)
        ((s.requeueRelayFrame frame).orphanedRelay ++
          frames.filter (stray (s.requeueRelayFrame frame))) := by
      have hsettings : (s.requeueRelayFrame frame).settings = s.settings :=
        requeue_same_part settings_bystander [frame] s
      unfold FitsOrphans
      rw [hsettings, hstray, horphans, List.append_assoc, ← List.filter_append]
      exact h
    refine (ih hfits).trans ((hqueued.append_right frames).trans ?_)
    rw [List.append_assoc]
    exact List.Perm.refl _

end Requeueing

section Draining

variable {cfg : CacheConfig} {s : Server}

/-- A batch has what waits, in another order. -/
theorem batch_perm (s : Server) : s.buildRelayFrameBatch.1.Perm s.queued := by
  rw [List.perm_iff_count]
  intro f
  have hroute := congrArg (List.count f) (@route_batch f.route s)
  have hon : RelayFrame.isOn f.route f = true := by simp [RelayFrame.isOn]
  rw [List.count_filter hon, List.count_filter hon] at hroute
  exact hroute

/-- Only the relay takes frames out of the queues or puts them in, and nobody closes. -/
structure Undropped (cfg : CacheConfig) (input : PassInput) (s : Server) : Prop where
  kept : (atBatch cfg input s).queued.Perm s.queued
  room : FitsOrphans (atBatch cfg input s)
    ((atBatch cfg input s).queued.filter (stray (atBatch cfg input s)))
  stays : closesIn cfg input s = []

theorem ids_unseen {connections connections' : List Conn}
    (h : List.Forall₂ Unseen connections connections') :
    connections'.map Conn.connId = connections.map Conn.connId :=
  Rows.forall₂_map_eq h fun hu => hu.conn_id

theorem replay_ids (codec : Codec) (p : Pass) :
    (p.replayInitFramesForNewPlayers codec).server.connections.map Conn.connId =
      p.server.connections.map Conn.connId := by
  refine Rows.foldl_same (fun p : Pass => p.server.connections.map Conn.connId) (fun p i => ?_) _ p
  unfold Pass.replayOne
  split
  · rfl
  · rename_i c hc
    exact ids_unseen (Rows.forall₂_set Unseen.refl hc (replay_unseen codec p.server.cache c))

theorem take_ids (s : Server) :
    s.buildRelayFrameBatch.2.connections.map Conn.connId = s.connections.map Conn.connId := by
  unfold Server.buildRelayFrameBatch
  dsimp only
  rw [List.map_map]
  refine List.map_congr_left fun c _ => ?_
  rw [Function.comp_apply]
  split <;> rfl

theorem flush_queued (input : PassInput) (p : Pass) :
    (p.flushConnections input).server.queued = p.server.queued := by
  refine Rows.foldl_same (fun p : Pass => p.server.queued) (fun p i => ?_) _ p
  unfold Pass.flushOne
  split
  · rfl
  · rename_i c hc
    have hrows := Rows.forall₂_set Aside.refl hc
      (ping_and_flush_aside (input.conns c.connId) c)
    unfold Server.queued Server.put
    dsimp only
    rw [pending_aside hrows]

/-- What the fan-out of a pass starts with. -/
theorem before_fanout_spec (cfg : CacheConfig) (first : List Abandoned) (p : Pass) :
    (p.beforeFanout cfg first).2.1 = (p.beforeBatch first).2.server.buildRelayFrameBatch.1 ∧
      (p.beforeFanout cfg first).2.2.server.queued = [] ∧
      (p.beforeFanout cfg first).2.2.server.connections.map Conn.connId =
        (p.beforeBatch first).2.server.connections.map Conn.connId ∧
      (p.beforeFanout cfg first).2.2.server.settings = (p.beforeBatch first).2.server.settings := by
  unfold Pass.beforeFanout
  generalize p.beforeBatch first = before
  obtain ⟨abandoned, q⟩ := before
  exact ⟨rfl, (replay_queued cfg.codec _).trans (take_queued q.server),
    (replay_ids cfg.codec _).trans (take_ids q.server),
    replay_same_part settings_bystander cfg.codec _⟩

/-- The fan-out of a pass handles frames from the front of its batch and puts the others back. -/
theorem send_export_accounts (cfg : CacheConfig) (input : PassInput) (abandoned : List Abandoned)
    (frames : List RelayFrame) (p : Pass) (hq : p.server.queued = [])
    (hroom : FitsOrphans p.server (frames.filter (stray p.server))) :
    ∃ done rest, frames = done ++ rest ∧
      handledFrames (p.sendAndExportRelayFrames cfg input abandoned frames).trace =
        handledFrames p.trace ++ done ∧
      (p.sendAndExportRelayFrames cfg input abandoned frames).server.queued.Perm rest ∧
      (input.relaySends = 0 → frames ≠ [] → done ≠ []) := by
  unfold Pass.sendAndExportRelayFrames
  dsimp only
  generalize hstart : ({ fanout := { connections := p.server.connections, closed := p.closed }
                         cache := p.server.cache
                         relaySends := input.relaySends } : Relaying) = start
  have hconns : start.fanout.connections = p.server.connections := hstart ▸ rfl
  have htrace : start.trace = [] := hstart ▸ rfl
  have hsends : start.relaySends = input.relaySends := hstart ▸ rfl
  obtain ⟨done, hframes, hhandled, hfirst⟩ := run_handles cfg p.server.settings input.now abandoned
    frames start
  have haside := run_aside cfg p.server.settings input.now abandoned frames start
  rw [hconns] at haside
  rw [htrace] at hhandled
  rw [hsends] at hfirst
  generalize Relaying.run cfg p.server.settings input.now abandoned frames start = r at *
  obtain ⟨r, rest⟩ := r
  dsimp only at *
  generalize (fun i : Nat => (r.fanout.connections[i]?.map (fun c =>
    (input.conns (Conn.connId c)).stagedSocket)).getD []) = sockets
  have hsent := staged_send_aside r.fanout.staged sockets r.fanout.connections r.fanout.closed
  generalize r.fanout.staged.send sockets r.fanout.connections r.fanout.closed = sent at hsent
  obtain ⟨connections, closed, taken⟩ := sent
  have hrows : List.Forall₂ Aside p.server.connections connections :=
    Rows.forall₂_trans Aside.trans haside hsent
  refine ⟨done, rest, hframes, ?_, ?_, hfirst⟩
  · rw [handled_append, hhandled]
    rfl
  · have hempty : ({ p.server with connections, cache := r.cache } : Server).queued = [] := by
      unfold Server.queued at hq ⊢
      dsimp only
      rw [pending_aside hrows]
      exact hq
    have hstray : stray { p.server with connections, cache := r.cache } = stray p.server := by
      funext f
      unfold stray
      rw [ids_unseen (hrows.imp fun _ _ ha => ha.unseen)]
    have horphans : p.server.orphanedRelay = [] :=
      (List.append_eq_nil_iff.mp (List.append_eq_nil_iff.mp hq).1).1
    have hperm := requeue_all rest (s := { p.server with connections, cache := r.cache }) (by
      rw [hstray, horphans, List.nil_append]
      refine FitsOrphans.sublist hroom ?_
      rw [hframes]
      exact (List.sublist_append_right done rest).filter _)
    rw [hempty] at hperm
    exact hperm

/-- What waited before a pass was handled in it or waits after it. -/
theorem pass_accounts {input : PassInput} (h : Undropped cfg input s) :
    (handledFrames (processConnections cfg input s).trace ++
        (processConnections cfg input s).server.queued).Perm s.queued ∧
      (input.relaySends = 0 → s.queued ≠ [] →
        handledFrames (processConnections cfg input s).trace ≠ []) := by
  have hreceived := (receive_phase_idles cfg input s).handled
  obtain ⟨hkept, hroom, hstays⟩ := h
  unfold processConnections
  unfold atBatch at hkept hroom
  unfold closesIn at hstays
  generalize Pass.receivePhase cfg input s = received at *
  obtain ⟨first, p⟩ := received
  dsimp only at *
  have hremoved : (p.relayPhase cfg input first).removeClosedConnections =
      p.relayPhase cfg input first := by
    unfold Pass.removeClosedConnections
    rw [hstays]
    simp
  have hhandled := (fanout_handled cfg first p).trans hreceived
  have hbatch := batch_perm (p.beforeBatch first).2.server
  obtain ⟨hframes, hqueued, hids, hsettings⟩ := before_fanout_spec cfg first p
  rw [hremoved, pass_unfold]
  rw [← hframes] at hbatch
  generalize (p.beforeBatch first).2.server = b at *
  generalize p.beforeFanout cfg first = start at *
  obtain ⟨abandoned, frames, q⟩ := start
  dsimp only at *
  have hstray : stray q.server = stray b := by
    funext f
    unfold stray
    rw [hids]
  have hfits : FitsOrphans q.server (frames.filter (stray q.server)) := by
    have hsame := hbatch.filter (stray b)
    unfold FitsOrphans at hroom ⊢
    rw [hstray, hsettings, hsame.length_eq, (hsame.map RelayFrame.retainedBytes).sum_nat]
    exact hroom
  obtain ⟨done, rest, hsplit, htrace, hrest, hfirst⟩ :=
    send_export_accounts cfg input abandoned frames q hqueued hfits
  rw [flush_queued, (flush_idles input _).handled, htrace, hhandled]
  have hall : frames.Perm s.queued := hbatch.trans hkept
  refine ⟨?_, fun hzero hne => ?_⟩
  · refine (hrest.append_left done).trans ?_
    rw [← hsplit]
    exact hall
  · refine hfirst hzero fun hnil => hne ?_
    rw [hnil] at hall
    exact List.nil_perm.mp hall

theorem accept_queued (accepted : List (Nat × Transport × Nat)) (s : Server) :
    (s.acceptNewConnections accepted).queued = s.queued := by
  refine Rows.foldl_same Server.queued (fun s a => ?_) accepted s
  unfold Server.addConnection
  split
  · rfl
  · simp [Server.queued]

/-- So it is with a poll. -/
theorem poll_accounts {input : PollInput}
    (h : ∀ x ∈ pollPasses cfg input s, Undropped cfg x.1 x.2) :
    (handledFrames (s.pollImpl cfg input).2 ++ (s.pollImpl cfg input).1.queued).Perm s.queued ∧
      (s.queued ≠ [] → handledFrames (s.pollImpl cfg input).2 ≠ []) := by
  unfold pollPasses at h
  unfold Server.pollImpl
  generalize hfirst : { input.first with relaySends := 0 } = first at h ⊢
  have hzero : first.relaySends = 0 := hfirst ▸ rfl
  have hpass : Undropped cfg first s → _ := pass_accounts
  dsimp only at h ⊢
  generalize processConnections cfg first s = p at h hpass
  have haccepted := accept_queued input.accepted p.server
  generalize p.server.acceptNewConnections input.accepted = t at h haccepted
  generalize relaySendsAfter cfg first s = sent at h
  split at h
  · rename_i hnew
    rw [if_pos hnew]
    simp only [List.mem_cons, List.not_mem_nil, or_false, forall_eq_or_imp, forall_eq] at h
    obtain ⟨hall, hsome⟩ := hpass h.1
    have hall' := (pass_accounts h.2).1
    have hqueued : ({ t with relayInterleaveInjectFirst := s.relayInterleaveInjectFirst } :
        Server).queued = p.server.queued := haccepted
    rw [hqueued] at hall'
    generalize processConnections cfg { input.second with relaySends := sent }
      { t with relayInterleaveInjectFirst := s.relayInterleaveInjectFirst } = q at hall'
    dsimp only
    rw [handled_append, List.append_assoc]
    refine ⟨(hall'.append_left _).trans hall, fun hne hnil => ?_⟩
    exact hsome hzero hne (List.append_eq_nil_iff.mp hnil).1
  · rename_i hnone
    rw [if_neg hnone]
    simp only [List.mem_cons, List.not_mem_nil, or_false, forall_eq] at h
    obtain ⟨hall, hsome⟩ := hpass h
    refine ⟨?_, hsome hzero⟩
    dsimp only
    rw [haccepted]
    exact hall

def UndroppedOp (cfg : CacheConfig) (s : Server) : ServerOp → Prop
  | .poll input => ∀ x ∈ pollPasses cfg input s, Undropped cfg x.1 x.2
  | _ => False

/-- As many polls as frames wait handle them all. -/
theorem polls_drain (polls : List PollInput) (h : Along cfg (UndroppedOp cfg) s (polls.map .poll))
    (hlen : s.queued.length ≤ polls.length) :
    (handledFrames (Server.run cfg s (polls.map .poll)).2).Perm s.queued := by
  induction polls generalizing s with
  | nil =>
    rw [List.length_eq_zero_iff.mp (Nat.le_zero.mp hlen)]
    exact List.Perm.refl []
  | cons input polls ih =>
    obtain ⟨hop, hrest⟩ := h
    obtain ⟨hall, hsome⟩ := poll_accounts hop
    have hshort : (s.pollImpl cfg input).1.queued.length ≤ polls.length := by
      have hsum := hall.length_eq
      rw [List.length_append] at hsum
      rw [List.length_cons] at hlen
      rcases List.eq_nil_or_concat s.queued with hnil | ⟨_, _, hne⟩
      · rw [hnil, List.length_nil] at hsum
        omega
      · have hpos := List.length_pos_iff.mpr (hsome (by simp [hne]))
        omega
    have hlater := ih hrest hshort
    rw [List.map_cons, Server.run]
    dsimp only [ServerOp.exec] at hlater ⊢
    rw [handled_append]
    exact (hlater.append_left _).trans hall

end Draining

/-- An event that takes no frame out of the queue of a connection and puts none in. -/
def SparesQueue : ServerEvent → Prop
  | .turn before _ after => after.pendingRelay = before.pendingRelay
  | .abandoned _ _ => False
  | _ => True

/-- A part of a pass after which the same frames wait, unless an event tells otherwise. -/
def Rests (p q : Pass) : Prop :=
  ∃ events, q.trace = p.trace ++ events ∧
    ((∀ e ∈ events, SparesQueue e) → q.server.queued = p.server.queued)

section Resting

variable {p q : Pass}

theorem Rests.refl (p : Pass) : Rests p p := ⟨[], by simp, fun _ => rfl⟩

theorem Rests.trans {u : Pass} (h : Rests p q) (h' : Rests q u) : Rests p u := by
  obtain ⟨events, htrace, hsame⟩ := h
  obtain ⟨more, htrace', hsame'⟩ := h'
  refine ⟨events ++ more, by rw [htrace', htrace, List.append_assoc], fun hall => ?_⟩
  obtain ⟨hevents, hmore⟩ := List.forall_mem_append.mp hall
  exact (hsame' hmore).trans (hsame hevents)

theorem rests_loop {f : Pass → Nat → Pass} (h : ∀ p i, Rests p (f p i)) (l : List Nat)
    (p : Pass) : Rests p (l.foldl f p) :=
  Rows.foldl_rel Rests.refl .trans h l p

theorem put_queued {s : Server} {i : Nat} {c : Conn} {t : Session}
    (hc : s.connections[i]? = some c) (ht : t.conn.pendingRelay = c.pendingRelay) :
    (s.put i t).queued = s.queued := by
  have hrows : List.Forall₂ (fun c d : Conn => d.pendingRelay = c.pendingRelay) s.connections
      (s.connections.set i t.conn) := Rows.forall₂_set (fun _ => rfl) hc ht
  unfold Server.queued Server.put
  dsimp only
  rw [List.flatMap_def, List.flatMap_def, Rows.forall₂_map_eq hrows fun h => h]

theorem unseen_pending {c d : Conn} (h : Unseen c d) : d.pendingRelay = c.pendingRelay :=
  congrArg Ledger.relay (h ∅)

theorem perform_spares {codec : Codec} {act : ConnAct} {s : Session}
    (h : ∀ e ∈ (s.perform codec act).2.2, SparesQueue e) :
    (s.perform codec act).2.1.conn.pendingRelay = s.conn.pendingRelay := by
  unfold Session.perform at h ⊢
  generalize Actions.Action.on (act.action codec) s = r at h ⊢
  obtain ⟨r, t⟩ := r
  exact h _ (List.mem_singleton.mpr rfl)

theorem receive_spares {codec : Codec} {events : List Inbound} {s : Session}
    (h : ∀ e ∈ (s.receive codec events).2.2, SparesQueue e) :
    (s.receive codec events).2.1.conn.pendingRelay = s.conn.pendingRelay := by
  induction events generalizing s with
  | nil => rfl
  | cons event events ih =>
    unfold Session.receive at h ⊢
    have hfirst := @perform_spares codec (.inbound event) s
    generalize s.perform codec (.inbound event) = r at h hfirst ⊢
    obtain ⟨r, t, trace⟩ := r
    cases r with
    | error _ => exact hfirst h
    | ok _ =>
      obtain ⟨htrace, hmore⟩ := List.forall_mem_append.mp h
      exact (ih hmore).trans (hfirst htrace)

theorem receive_one_spares {codec : Codec} {input : ConnInput} {s : Session}
    (h : ∀ e ∈ (Pass.receiveOne codec input s).2.2, SparesQueue e) :
    (Pass.receiveOne codec input s).2.1.conn.pendingRelay = s.conn.pendingRelay := by
  revert h
  unfold Pass.receiveOne
  split
  · exact fun _ => unseen_pending (disconnect_aside s.conn).unseen
  · split
    · exact fun _ => rfl
    · exact receive_spares

theorem replay_at_once_pending (codec : Codec) (cache : CacheTable) (socket : Socket) (c : Conn) :
    (Pass.replayAtOnce codec cache socket c).2.1.pendingRelay = c.pendingRelay := by
  have hreplay := unseen_pending (replay_unseen codec cache c)
  unfold Pass.replayAtOnce
  generalize c.replayInitFrames codec cache = r at hreplay
  obtain ⟨failed, d, sent⟩ := r
  cases failed with
  | true => exact hreplay
  | false =>
    dsimp only
    split
    · exact hreplay
    · have hflush := unseen_pending (flush_aside d socket).unseen
      generalize d.flush socket = f at hflush
      obtain ⟨f, e⟩ := f
      cases f <;> exact hflush.trans hreplay

theorem reap_rests (codec : Codec) (input : PassInput) (p : Pass) :
    Rests p (p.reapTimedOutPendingAuth codec input) := by
  refine rests_loop (fun p i => ?_) _ p
  unfold Pass.reapOne
  split
  · exact .refl p
  · rename_i c hc
    have hspares := @perform_spares codec
      (.reap (input.conns c.connId).now p.server.settings.pendingAuthTimeout)
      ⟨c, p.server.activePublishRoutes⟩
    dsimp only
    generalize Session.perform codec
      (.reap (input.conns c.connId).now p.server.settings.pendingAuthTimeout)
      ⟨c, p.server.activePublishRoutes⟩ = r at hspares
    obtain ⟨r, t, trace⟩ := r
    have hflush := unseen_pending (flush_aside t.conn (input.conns c.connId).reapSocket).unseen
    dsimp only at hspares ⊢
    split
    · refine ⟨trace, rfl, fun h => put_queued hc ?_⟩
      exact (unseen_pending (disconnect_aside _).unseen).trans (hflush.trans (hspares h))
    · exact ⟨trace, rfl, fun h => put_queued hc (hflush.trans (hspares h))⟩

theorem recv_rests (codec : Codec) (input : PassInput) (p : Pass) :
    Rests p (p.recvAndReapConnections codec input) := by
  refine rests_loop (fun p i => ?_) _ p
  unfold Pass.recvAndReapOne
  split
  · exact .refl p
  · rename_i c hc
    dsimp only
    have hspares := @receive_one_spares codec (input.conns c.connId)
      ⟨c, p.server.activePublishRoutes⟩
    generalize Pass.receiveOne codec (input.conns c.connId) ⟨c, p.server.activePublishRoutes⟩ = r
      at hspares
    obtain ⟨closes, t, trace⟩ := r
    have hrearm := unseen_pending (rearm_aside t.conn (input.conns c.connId).now).unseen
    dsimp only at hspares ⊢
    generalize t.conn.rearmDeferredInitReplay (input.conns c.connId).now = d at hrearm
    have hreplay : (if (!closes && !(p.evictionsQueued || !t.conn.pendingCacheEvictions.isEmpty) &&
        d.needsInitFrames) = true then
      Pass.replayAtOnce codec p.server.cache (input.conns c.connId).replaySocket d
      else (false, d, [])).2.1.pendingRelay = d.pendingRelay := by
      split
      · exact replay_at_once_pending codec _ _ d
      · rfl
    generalize (if (!closes && !(p.evictionsQueued || !t.conn.pendingCacheEvictions.isEmpty) &&
        d.needsInitFrames) = true then
      Pass.replayAtOnce codec p.server.cache (input.conns c.connId).replaySocket d
      else (false, d, [])) = w at hreplay
    obtain ⟨fails, e, sent⟩ := w
    refine ⟨trace ++ e.replayed sent, List.append_assoc _ _ _, fun h => put_queued hc ?_⟩
    exact hreplay.trans (hrearm.trans (hspares (List.forall_mem_append.mp h).1))

theorem detach_rests (codec : Codec) (p : Pass) :
    Rests p (p.detachDisplacedRouteOwners codec) := by
  refine rests_loop (fun p i => ?_) _ p
  unfold Pass.detachOne
  split
  · exact .refl p
  · rename_i c hc
    split
    · exact .refl p
    · have hspares := @perform_spares codec .detach ⟨c, p.server.activePublishRoutes⟩
      generalize Session.perform codec .detach ⟨c, p.server.activePublishRoutes⟩ = r at hspares
      obtain ⟨r, t, trace⟩ := r
      exact ⟨trace, rfl, fun h => put_queued hc (hspares h)⟩

/-- A drain that finds nothing to evict does nothing. -/
theorem drain_one_none {d : List Abandoned × Server} {i : Nat}
    (h : (Server.drainOne d i).1 = []) : (Server.drainOne d i).2.queued = d.2.queued := by
  unfold Server.drainOne at h ⊢
  split at h
  · rfl
  · rename_i c hc
    dsimp only at h ⊢
    have hkeys : c.pendingCacheEvictions ++ c.abandonedRelayRoutes = [] :=
      List.map_eq_nil_iff.mp (List.append_eq_nil_iff.mp h).2
    rw [hkeys]
    exact put_queued (t := ⟨_, d.2.activePublishRoutes⟩) hc rfl

theorem drain_loop_none {l : List Nat} {d : List Abandoned × Server}
    (h : (l.foldl Server.drainOne d).1 = []) :
    (l.foldl Server.drainOne d).2.queued = d.2.queued := by
  induction l generalizing d with
  | nil => rfl
  | cons i l ih =>
    have hrest := ih h
    have hfirst : (Server.drainOne d i).1 = [] := by
      refine List.eq_nil_of_subset_nil (h ▸ ?_)
      refine Rows.foldl_subset Prod.fst (fun d i => ?_) l (Server.drainOne d i)
      rw [drain_one_eq]
      exact List.subset_append_left _ _
    exact hrest.trans (drain_one_none hfirst)

theorem abandonments_none {keys : List Abandoned}
    (h : ∀ e ∈ abandonments keys, SparesQueue e) : keys = [] := by
  cases keys with
  | nil => rfl
  | cons key keys => exact (h _ List.mem_cons_self).elim

theorem drain_rests (p : Pass) : Rests p p.drain.2 :=
  ⟨_, rfl, fun h => drain_loop_none (abandonments_none h)⟩

/-- The release of a route that no injected frame waits on. -/
theorem release_queued {s : Server} {route : RouteKey}
    (h : route ∉ s.pendingInjectedRelay.map RelayFrame.route) :
    (s.releaseInjectedRoute route).pendingInjectedRelay = s.pendingInjectedRelay ∧
      (s.releaseInjectedRoute route).queued = s.queued := by
  have hkept : s.pendingInjectedRelay.filter (fun f => f.route ≠ route) =
      s.pendingInjectedRelay := by
    refine List.filter_eq_self.mpr fun f hf => ?_
    rw [decide_eq_true_eq]
    exact fun hroute => h (hroute ▸ List.mem_map_of_mem hf)
  unfold Server.releaseInjectedRoute
  rw [hkept]
  dsimp only
  split <;> exact ⟨rfl, rfl⟩

theorem releases_queued {routes : List RouteKey} {s : Server}
    (h : ∀ route ∈ routes, route ∉ s.pendingInjectedRelay.map RelayFrame.route) :
    (routes.foldl Server.releaseInjectedRoute s).queued = s.queued := by
  induction routes generalizing s with
  | nil => rfl
  | cons route routes ih =>
    obtain ⟨hfirst, hroutes⟩ := List.forall_mem_cons.mp h
    obtain ⟨hinjected, hqueued⟩ := release_queued hfirst
    rw [← hinjected] at hroutes
    exact (ih hroutes).trans hqueued

/-- An injected route that frames wait on is not stale. -/
theorem stale_rests (now : Nat) (p : Pass) :
    Rests p { p with
      server := p.server.reapStaleInjectRoutes now
      trace := p.trace ++ (p.server.staleInjectRoutes now).map ServerEvent.released } := by
  refine ⟨_, rfl, fun _ => releases_queued fun route hmem => ?_⟩
  obtain ⟨e, he, rfl⟩ := List.mem_map.mp hmem
  rw [List.mem_filter, decide_eq_true_eq] at he
  exact he.2.2

theorem reap_and_receive_rests (cfg : CacheConfig) (input : PassInput) (s : Server) :
    Rests { server := s } (Pass.reapAndReceive cfg input s) :=
  (((reap_rests cfg.codec input { server := s }).trans (drain_rests _)).trans
    (stale_rests input.now _)).trans (recv_rests cfg.codec input _)

theorem drain_trace (p : Pass) : p.drain.2.trace = p.trace ++ abandonments p.drain.1 := rfl

theorem before_batch_eq (first : List Abandoned) (p : Pass) :
    p.beforeBatch first = (first ++ p.drain.1,
      { p.drain.2 with server := p.drain.2.server.dropStalePendingRelay (first ++ p.drain.1) }) :=
  rfl

/-- What waits at the batch waited before, if no turn and no abandonment changes the queues. -/
theorem batch_rests {cfg : CacheConfig} {input : PassInput} {s : Server}
    (h : ∀ e ∈ ((Pass.receivePhase cfg input s).2.beforeBatch
      (Pass.receivePhase cfg input s).1).2.trace, SparesQueue e) :
    (atBatch cfg input s).queued = s.queued := by
  obtain ⟨events, htrace, hreceived⟩ := reap_and_receive_rests cfg input s
  unfold atBatch
  unfold Pass.receivePhase at h ⊢
  dsimp only at h ⊢
  generalize Pass.reapAndReceive cfg input s = v at h htrace hreceived ⊢
  obtain ⟨moves, hmoved, hdetached⟩ := detach_rests cfg.codec v.drain.2
  generalize v.drain.2.detachDisplacedRouteOwners cfg.codec = w at h hmoved hdetached ⊢
  rw [before_batch_eq] at h ⊢
  dsimp only at h ⊢
  rw [drain_trace, hmoved, drain_trace, htrace] at h
  simp only [List.forall_mem_append] at h
  obtain ⟨⟨⟨⟨-, hevents⟩, hfirst⟩, hmoves⟩, hsecond⟩ := h
  have hkeys : v.drain.1 = [] := abandonments_none hfirst
  have hkeys' : w.drain.1 = [] := abandonments_none hsecond
  have hdrained : v.drain.2.server.queued = v.server.queued := drain_loop_none hkeys
  have hdrained' : w.drain.2.server.queued = w.server.queued := drain_loop_none hkeys'
  rw [hkeys, hkeys', List.append_nil, drop_stale_none]
  exact hdrained'.trans ((hdetached hmoves).trans (hdrained.trans (hreceived hevents)))

end Resting

section Evaluation

instance (s : Server) (frames : List RelayFrame) : Decidable (FitsOrphans s frames) :=
  inferInstanceAs (Decidable (_ ∧ _))

instance (cfg : CacheConfig) (input : PassInput) (s : Server) :
    Decidable (Undropped cfg input s) :=
  decidable_of_iff ((atBatch cfg input s).queued.Perm s.queued ∧
      FitsOrphans (atBatch cfg input s)
        ((atBatch cfg input s).queued.filter (stray (atBatch cfg input s))) ∧
      closesIn cfg input s = [])
    ⟨fun ⟨kept, room, stays⟩ => ⟨kept, room, stays⟩, fun h => ⟨h.kept, h.room, h.stays⟩⟩

instance (cfg : CacheConfig) (s : Server) (op : ServerOp) : Decidable (UndroppedOp cfg s op) :=
  match op with
  | .poll input =>
    inferInstanceAs (Decidable (∀ x ∈ pollPasses cfg input s, Undropped cfg x.1 x.2))
  | .pass _ | .accept _ _ _ | .complete _ _ _ _ _ _ | .inject _ _ _ _ _ | .connInject _ _ _ _ _
  | .releaseInjected _ | .releaseAllInjected | .setRelayKey _ _ | .setRelayEnabled _ _
  | .tune _ | .stop => inferInstanceAs (Decidable False)

/-- Two frames of one publisher wait for their player on a server without any send budget. -/
def noBudgetServer : Server :=
  (Server.run mediaConfig { settings := { maxRelaySendsPerPoll := 0 } }
    [.accept 0 ⟨false⟩ 3, .accept 0 ⟨false⟩ 4,
      hears fun connId => joins ++
        [if connId = 1 then publishes "a" else tells (.command (.play (some "a")))],
      .connInject 1 {} .audio 0 [0xAF, 0x01, 0x21], .connInject 1 {} .audio 1 [0xAF, 0x01, 0x22]]).1

def deferringServer : Server :=
  (Server.run mediaConfig { settings := { deferMediaRelay := true } }
    [.accept 0 ⟨false⟩ 3, .setRelayKey 1 "key", hears fun _ => joins ++ [publishes "a"],
      .setRelayEnabled 1 true, .connInject 1 {} .audio 0 [0xAF, 0x01, 0x21]]).1

def renamingPoll : PollInput :=
  { first := { conns := fun _ => { events := [publishes "b"] } } }

end Evaluation

end LibRtmp.Proofs
