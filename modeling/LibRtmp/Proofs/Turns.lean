import LibRtmp.Session.Standing
import LibRtmp.Proofs.QueueMoves

namespace LibRtmp.Proofs

open Actions
open Relation (ReflTransGen)

variable (codec : Codec) (c : Conn)

section Turning

theorem drops_tidies {c d : Conn} (h : Drops c d) : Tidies c d := by
  obtain ⟨_, _, _, _, rfl⟩ := h
  exact ⟨rfl, .inl rfl⟩

theorem detach_moves {o : Mandate} (hl : o.loses) (c : Conn) :
    ReflTransGen (Conn.Move o) c c.detachLostPublishRoute := by
  unfold Conn.detachLostPublishRoute
  dsimp only
  split
  · exact .refl
  · refine .tail (.single (.deed _ (.lose hl))) (.tidy _ ?_)
    refine Tidies.trans ?_ (drops_tidies (evict_both_evicts _ _ _).1.drops)
    exact ⟨rfl, .inl rfl⟩

def anyCause : Cause := { peerCause with injects := True }

theorem backs_any (act : ConnAct) : Backs anyCause codec c act := by
  cases act with
  | inbound event =>
    cases event with
    | message host m budget socket =>
      exact fun _ _ _ _ _ => ⟨fun _ => ⟨trivial, trivial, fun _ _ => trivial⟩, fun _ _ => trivial⟩
    | _ => trivial
  | complete host role requestId allow =>
    exact fun _ _ _ _ => ⟨trivial, trivial, fun _ _ => trivial⟩
  | inject _ _ _ _ => exact ⟨trivial, fun _ => trivial⟩
  | _ => trivial

/-- A turn takes its connection along the moves its act orders. -/
theorem turn_moves (routes : Routes) (act : ConnAct) :
    ReflTransGen (Conn.Move (act.mandate c)) c (c.turn codec routes act) := by
  by_cases hd : act = .detach
  · subst hd
    exact detach_moves rfl c
  · exact (Walks.passes (act_walks act hd (s := ⟨c, routes⟩) (backs_any codec c act))).2

end Turning

section Steps

theorem transition_routine (new : ConnState) : Routine c (c.transition new) := by
  unfold Conn.transition
  split <;> exact ⟨rfl, .inl rfl⟩

theorem drop_pending_routine (role : Role) : Routine c (c.dropPendingAuth role) := by
  unfold Conn.dropPendingAuth
  split <;> exact ⟨rfl, .inl rfl⟩

theorem move_step {o : Mandate} {c d : Conn} (h : Conn.Move o c d) : Conn.Step o.toOrders c d := by
  cases h with
  | tidy _ h => exact .routine h.routine
  | enter app _ => exact .routine ⟨rfl, .inl rfl⟩
  | advance new _ => exact .routine (transition_routine c new)
  | drop role _ => exact .routine (drop_pending_routine c role)
  | bar role => exact .routine ⟨rfl, .inl rfl⟩
  | await role p _ _ _ => exact .routine ⟨rfl, .inl rfl⟩
  | deed _ h => exact .deed h

theorem turn_steps (routes : Routes) (act : ConnAct) :
    ReflTransGen (Conn.Step (act.orders c)) c (c.turn codec routes act) :=
  ReflTransGen.mono (fun _ _ => move_step) _ _ (turn_moves codec c routes act)

end Steps

section Standings

variable {c : Conn} {now : Nat}

theorem start_publishing_standing {name : String} :
    (c.startPublishing now name).standing =
      (((c.armPublishDeadline now (c.nextRouteKey name)).resetDeferredRelay name).takeRole .publish
        name).standing :=
  (transition_routine _ _).1

theorem arm_deadline_keeps (c : Conn) (now : Nat) (key : String) :
    let d := c.armPublishDeadline now key
    d.currentStream = c.currentStream ∧ d.relayEnabled = c.relayEnabled ∧
      d.deferMediaRelay = c.deferMediaRelay ∧ d.transport = c.transport := by
  unfold Conn.armPublishDeadline
  split <;> exact ⟨rfl, rfl, rfl, rfl⟩

theorem reset_deferred_standing {name : String} :
    (c.resetDeferredRelay name).standing = { c.standing with
      relayEnabled := (c.resetDeferredRelay name).relayEnabled } := by
  unfold Conn.resetDeferredRelay
  split
  · split <;> rfl
  · rfl

theorem start_publishing_stream {name : String} :
    (c.startPublishing now name).currentStream =
      c.currentStream.map (fun s => s.takeRole .publish name) := by
  refine (congrArg Standing.stream start_publishing_standing).trans ?_
  refine congrArg (Option.map _) ((congrArg Standing.stream reset_deferred_standing).trans ?_)
  exact (arm_deadline_keeps c now (c.nextRouteKey name)).1

theorem start_playing_standing {name : String} :
    (c.startPlaying now name).standing = { c.standing with
      stream := c.currentStream.map (fun s => s.takeRole .play name)
      relayCongestion := none
      pauseGraceMediaBytesSent :=
        if c.currentStream.any (fun s => s.isPlaying && s.name == name) then
          c.pauseGraceMediaBytesSent
        else c.mediaBytesSent } := by
  unfold Conn.startPlaying
  dsimp only
  rw [(transition_routine _ _).1]
  split
  · rfl
  · unfold Conn.requestInitReplay
    split <;> rfl

theorem drop_both_routine (c : Conn) : Routine c c.dropPendingAuthorizations :=
  (drop_pending_routine c .publish).trans (drop_pending_routine _ .play)

def Standing.ended (s : Standing) (now : Nat) (earned : Bool) : Standing :=
  if earned then
    { s with
      relayEnabled := false
      sessionSetupStarted := now
      teardownGraceMediaBytesReceived := s.mediaBytesReceived
      teardownGraceInjectedBytes := s.injectedMediaBytesTotal
      pauseGraceMediaBytesSent := s.mediaBytesSent }
  else { s with relayEnabled := false }

theorem ended_keeps (s : Standing) (now : Nat) (earned : Bool) :
    (Standing.ended s now earned).relayEnabled = false ∧
      (Standing.ended s now earned).deferMediaRelay = s.deferMediaRelay ∧
      (Standing.ended s now earned).relayCongestion = s.relayCongestion ∧
      (Standing.ended s now earned).transport = s.transport := by
  cases earned <;> exact ⟨rfl, rfl, rfl, rfl⟩

theorem refresh_timer_cases {wasActive earned : Bool}
    (h : c.teardownRefreshesSetupTimer = earned) :
    c.refreshSetupTimer now wasActive =
      match wasActive && earned with
      | true =>
        { c with
          teardownGraceMediaBytesReceived := c.mediaBytesReceived
          teardownGraceInjectedBytes := c.injectedMediaBytesTotal
          pauseGraceMediaBytesSent := c.mediaBytesSent
          sessionSetupStarted := now }
      | false => c := by
  unfold Conn.refreshSetupTimer
  rw [h]
  cases wasActive && earned <;> rfl

theorem end_role_standing :
    (c.endRole now c.isActive).standing =
      { Standing.ended c.standing now (c.isActive && c.teardownRefreshesSetupTimer) with
        stream := c.currentStream.map Stream.endRole
        relayCongestion := none } := by
  unfold Conn.endRole Standing.ended
  dsimp only
  have hearned := @refresh_timer_cases { c with
    currentStream := c.currentStream.map Stream.endRole
    relayCongestion := none
    activeStreamCount := c.activeStreamCount - 1 } now c.isActive c.teardownRefreshesSetupTimer rfl
  rw [(drop_both_routine _).1, hearned]
  cases c.isActive && c.teardownRefreshesSetupTimer <;> rfl

theorem open_stream_standing {count : Nat} :
    ∃ streamId, (c.openStream now c.isActive count).standing =
      { Standing.ended c.standing now (c.isActive && c.teardownRefreshesSetupTimer) with
        stream := some { streamId } } := by
  obtain ⟨hdrop, _⟩ := drop_both_routine { c with relayEnabled := false }
  unfold Conn.openStream Standing.ended
  dsimp only
  generalize Conn.dropPendingAuthorizations { c with relayEnabled := false } = d at hdrop
  simp only [Conn.standing, Standing.mk.injEq] at hdrop
  have hearned : d.teardownRefreshesSetupTimer = c.teardownRefreshesSetupTimer := by
    unfold Conn.teardownRefreshesSetupTimer
    simp only [hdrop]
  refine ⟨d.nextStreamId + 1, ?_⟩
  rw [(transition_routine _ _).1, @refresh_timer_cases { d with
    activeStreamCount := count
    nextStreamId := d.nextStreamId + 1
    currentStream := some { streamId := d.nextStreamId + 1 } } now c.isActive
      c.teardownRefreshesSetupTimer hearned]
  cases c.isActive && c.teardownRefreshesSetupTimer <;> simp [Conn.standing, hdrop]

theorem set_paused_standing {flag : Bool} :
    (c.setPaused now flag).standing = { c.standing with
      stream := c.currentStream.map (fun s => { s with paused := flag })
      relayCongestion := if flag then c.relayCongestion else none
      sessionSetupStarted := (c.setPaused now flag).sessionSetupStarted
      pauseGraceMediaBytesSent := (c.setPaused now flag).pauseGraceMediaBytesSent } := by
  unfold Conn.setPaused
  cases hs : c.currentStream with
  | none => cases flag <;> simp [Conn.standing, hs]
  | some st =>
    have htimer : c.refreshPauseTimer now flag st = c ∨ c.refreshPauseTimer now flag st =
        { c with sessionSetupStarted := now, pauseGraceMediaBytesSent := c.mediaBytesSent } := by
      unfold Conn.refreshPauseTimer
      split
      · exact .inr rfl
      · exact .inl rfl
    rcases htimer with ht | ht <;> cases flag <;> simp [Conn.standing, hs, ht]

end Standings

end LibRtmp.Proofs
