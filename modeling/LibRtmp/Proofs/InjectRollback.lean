import LibRtmp.Media.InitCache
import LibRtmp.Proofs.QueueMoves

namespace LibRtmp.Proofs

open Actions

section Claiming

variable {m : Routes} {c : Nat} {app prev stream : String}

theorem claim_free (h : m.lookup (app, stream) = none) :
    m.claim c app stream = (true, m.insert (app, stream) c) := by
  unfold Routes.claim
  rw [h]

theorem claim_owned (h : m.lookup (app, stream) = some c) :
    m.claim c app stream = (true, m.insert (app, stream) c) := by
  unfold Routes.claim
  rw [h]
  exact if_neg (not_not.mpr rfl)

theorem release_owned (h : m.lookup (app, stream) = some c) :
    m.release c app stream = m.erase (app, stream) := if_pos h

/-- A route that is taken and given up again leaves the table as it was. -/
theorem lookup_undo_claim (h : m.lookup (app, stream) = none) (k : RouteKey) :
    (Routes.release (m.insert (app, stream) c) c app stream).lookup k = m.lookup k := by
  rw [release_owned (AList.lookup_insert m)]
  by_cases hk : k = (app, stream)
  · rw [hk, AList.lookup_erase, h]
  · rw [AList.lookup_erase_ne hk, AList.lookup_insert_ne hk]

theorem lookup_switched (h : m.lookup (app, prev) = some c) (hne : prev ≠ stream) :
    Routes.release (m.insert (app, stream) c) c app prev =
      (m.insert (app, stream) c).erase (app, prev) := by
  refine release_owned ?_
  rw [AList.lookup_insert_ne (by simpa using hne)]
  exact h

/-- So does a switch to another route and back. -/
theorem lookup_undo_switch (hprev : m.lookup (app, prev) = some c)
    (hfree : m.lookup (app, stream) = none) (hne : prev ≠ stream) (k : RouteKey) :
    ((Routes.release ((m.insert (app, stream) c).erase (app, prev)) c app stream).claim c app
      prev).2.lookup k = m.lookup k := by
  have hkeys : (app, stream) ≠ (app, prev) := by simpa using hne.symm
  rw [release_owned (by rw [AList.lookup_erase_ne hkeys]; exact AList.lookup_insert m), claim_free]
  · by_cases hk : k = (app, prev)
    · rw [hk, AList.lookup_insert, hprev]
    · rw [AList.lookup_insert_ne hk]
      by_cases hs : k = (app, stream)
      · rw [hs, AList.lookup_erase, hfree]
      · rw [AList.lookup_erase_ne hs, AList.lookup_erase_ne hk, AList.lookup_insert_ne hs]
  · rw [AList.lookup_erase_ne hkeys.symm, AList.lookup_erase]

end Claiming

section Ownership

/-- The entries of a connection are just the route it remembers. -/
def OwnsJust (connId : Nat) (app : String) (claimed : Option String) (routes : Routes) : Prop :=
  ∀ a r, routes.lookup (a, r) = some connId ↔ a = app ∧ claimed = some r

variable {s : Session} {stream : String}

/-- What taking a route comes to for a connection that owns just the route it remembers. -/
inductive ClaimCase (s : Session) (stream : String) : PublishRouteClaimOutcome × Session → Prop where
  | contended : ClaimCase s stream (.contended, s)
  | kept (routes : Routes) (h : s.conn.claimedPublishRoute = some stream)
    (hr : ∀ k, routes.lookup k = s.routes.lookup k) : ClaimCase s stream (.claimed, ⟨s.conn, routes⟩)
  | first (h : s.conn.claimedPublishRoute = none)
    (hfree : s.routes.lookup (s.conn.app, stream) = none) :
    ClaimCase s stream (.claimed, ⟨{ s.conn with claimedPublishRoute := some stream },
      s.routes.insert (s.conn.app, stream) s.conn.connId⟩)
  | switched (prev : String) (more : List RouteKey) (h : s.conn.claimedPublishRoute = some prev)
    (hne : prev ≠ stream) (hfree : s.routes.lookup (s.conn.app, stream) = none) :
    ClaimCase s stream (.claimed, ⟨{ s.conn with
        claimedPublishRoute := some stream
        pendingCacheEvictions := s.conn.pendingCacheEvictions ++ more },
      (s.routes.insert (s.conn.app, stream) s.conn.connId).erase (s.conn.app, prev)⟩)
  | full (routes : Routes) (hr : ∀ k, routes.lookup k = s.routes.lookup k) :
    ClaimCase s stream (.evictionQueueFull, ⟨s.conn, routes⟩)

/-- The cases of a claim are all there are. -/
theorem claim_takes (hs : s.conn.publishRoutes = true)
    (ho : OwnsJust s.conn.connId s.conn.app s.conn.claimedPublishRoute s.routes) :
    ClaimCase s stream (s.claimPublishRoute stream) := by
  unfold Session.claimPublishRoute
  dsimp only
  rw [if_pos hs]
  cases hstream : s.routes.lookup (s.conn.app, stream) with
  | none =>
    rw [claim_free hstream]
    cases hclaimed : s.conn.claimedPublishRoute with
    | none => exact .first hclaimed hstream
    | some prev =>
      have hprev : s.routes.lookup (s.conn.app, prev) = some s.conn.connId :=
        (ho _ _).mpr ⟨rfl, hclaimed⟩
      have hne : prev ≠ stream := by
        rintro rfl
        cases hstream.symm.trans hprev
      dsimp only
      rw [if_neg hne, lookup_switched hprev hne]
      split
      · rename_i d hd
        split at hd
        · unfold Conn.pushPendingCacheEviction at hd
          split at hd
          · cases hd
          · cases hd
            exact .switched prev _ hclaimed hne hstream
        · cases hd
          have htakes := ClaimCase.switched prev [] hclaimed hne hstream
          rwa [List.append_nil] at htakes
      · exact .full _ (lookup_undo_switch hprev hstream hne)
  | some owner =>
    by_cases howner : owner = s.conn.connId
    · subst howner
      obtain ⟨_, hclaimed⟩ := (ho _ _).mp hstream
      rw [claim_owned hstream, hclaimed]
      dsimp only
      rw [if_pos rfl]
      refine .kept _ hclaimed fun k => ?_
      by_cases hk : k = (s.conn.app, stream)
      · rw [hk, AList.lookup_insert, hstream]
      · exact AList.lookup_insert_ne hk
    · rw [show s.routes.claim s.conn.connId s.conn.app stream = (false, s.routes) by
        unfold Routes.claim
        rw [hstream]
        exact if_pos howner]
      exact .contended

theorem undo_inject_first (hs : s.conn.publishRoutes = true)
    (hc : s.conn.claimedPublishRoute = some stream) (evictions : Nat) :
    s.undoInjectClaim none evictions =
      ⟨{ s.conn with
          claimedPublishRoute := none
          pendingCacheEvictions := s.conn.pendingCacheEvictions.take evictions },
        s.routes.release s.conn.connId s.conn.app stream⟩ := by
  unfold Session.undoInjectClaim Session.releaseClaimedPublishRoute
  rw [hc]
  dsimp only
  rw [if_pos hs]

theorem undo_inject_switch (hs : s.conn.publishRoutes = true)
    (hc : s.conn.claimedPublishRoute = some stream) (prev : String) (evictions : Nat) :
    s.undoInjectClaim (some prev) evictions =
      ⟨{ s.conn with
          claimedPublishRoute := some prev
          relayKey := prev
          pendingCacheEvictions := s.conn.pendingCacheEvictions.take evictions },
        ((s.routes.release s.conn.connId s.conn.app stream).claim s.conn.connId s.conn.app
          prev).2⟩ := by
  unfold Session.undoInjectClaim Session.releaseClaimedPublishRoute
  rw [hc]
  dsimp only
  rw [if_pos hs, if_pos hs]

end Ownership

section Injecting

structure Uninjected (s t : Session) : Prop where
  conn : t.conn = { s.conn with relayKey := t.conn.relayKey }
  key : t.conn.relayKey = s.conn.relayKey ∨ s.conn.claimedPublishRoute = some t.conn.relayKey
  routes : ∀ k, t.routes.lookup k = s.routes.lookup k

structure Injected (s : Session) (frame : RelayFrame) (t : Session) : Prop where
  claimed : t.conn.claimedPublishRoute = some s.conn.relayRouteKey
  owns : OwnsJust s.conn.connId s.conn.app (some s.conn.relayRouteKey) t.routes
  relay : t.conn.pendingRelay = s.conn.pendingRelay ++ [frame]

def InjectOutcome (s : Session) (frame : RelayFrame) : Except ErrorCode Unit × Session → Prop
  | (.error _, t) => Uninjected s t
  | (.ok _, t) => Injected s frame t

variable {s t : Session}

theorem Uninjected.refl (s : Session) : Uninjected s s := ⟨rfl, .inl rfl, fun _ => rfl⟩

/-- The rollback of a route that was just taken. -/
theorem takes_undone (hs : s.conn.publishRoutes = true)
    (ho : OwnsJust s.conn.connId s.conn.app s.conn.claimedPublishRoute s.routes)
    (ht : ClaimCase s s.conn.relayRouteKey (.claimed, t)) :
    Uninjected s (if s.conn.claimedPublishRoute ≠ some s.conn.relayRouteKey then
      t.undoInjectClaim s.conn.claimedPublishRoute s.conn.pendingCacheEvictions.length else t) := by
  cases ht with
  | kept routes h hr =>
    rw [if_neg (not_not.mpr h)]
    exact ⟨rfl, .inl rfl, hr⟩
  | first h hfree =>
    rw [if_pos (by simp [h]), h, undo_inject_first (by exact hs) (by rfl)]
    refine ⟨?_, .inl rfl, lookup_undo_claim hfree⟩
    simp [← h]
  | switched prev more h hne hfree =>
    rw [if_pos (by simpa [h] using hne), h, undo_inject_switch (by exact hs) (by rfl)]
    refine ⟨?_, .inr h, lookup_undo_switch ((ho _ _).mpr ⟨rfl, h⟩) hfree hne⟩
    simp [← h]

theorem takes_owns (ho : OwnsJust s.conn.connId s.conn.app s.conn.claimedPublishRoute s.routes)
    {stream : String} (ht : ClaimCase s stream (.claimed, t)) :
    t.conn.claimedPublishRoute = some stream ∧
      OwnsJust s.conn.connId s.conn.app (some stream) t.routes := by
  cases ht with
  | kept routes h hr =>
    refine ⟨h, fun a r => ?_⟩
    rw [hr, ho, h]
  | first h hfree =>
    refine ⟨rfl, fun a r => ?_⟩
    rw [Maps.lookup_insert, ho, h]
    simp [eq_comm]
  | switched prev more h hne hfree =>
    refine ⟨rfl, fun a r => ?_⟩
    rw [Maps.lookup_erase, Maps.lookup_insert, ho, h]
    grind

/-- A connection whose relay key is pointed back at the route it holds. -/
theorem held_key_restored {routes : Routes} (hr : ∀ k, routes.lookup k = s.routes.lookup k) :
    Uninjected s ⟨{ s.conn with
      relayKey := s.conn.claimedPublishRoute.getD s.conn.relayKey }, routes⟩ := by
  refine ⟨rfl, ?_, hr⟩
  cases hc : s.conn.claimedPublishRoute with
  | none => exact .inl rfl
  | some r => exact .inr rfl

/-- An inject that fails changes nothing but the relay key, which may be set to the route still
held; one that succeeds leaves the connection with its one route and one more frame. -/
theorem inject_all_or_nothing (h : Host) (frameType : FrameType) (timestamp : UInt32)
    (payload : List UInt8) (s : Session) (hs : s.conn.publishRoutes = true)
    (ho : OwnsJust s.conn.connId s.conn.app s.conn.claimedPublishRoute s.routes) :
    InjectOutcome s
      (s.conn.relayFrame frameType timestamp payload (h.media.normalize frameType payload))
      ((injectRelayFrame h frameType timestamp payload).on s) := by
  unfold injectRelayFrame
  rw [Action.on_bind, Action.on_get]
  dsimp only
  split
  · exact Uninjected.refl s
  split
  · exact Uninjected.refl s
  split
  · exact Uninjected.refl s
  split
  · exact Uninjected.refl s
  rw [Action.on_bind, Action.on_modify_get]
  dsimp only
  have htakes := @claim_takes s s.conn.relayRouteKey hs ho
  generalize s.claimPublishRoute s.conn.relayRouteKey = r at htakes
  obtain ⟨outcome, t⟩ := r
  cases outcome with
  | claimed =>
    have hundone := takes_undone hs ho htakes
    obtain ⟨hclaimed, howns⟩ := takes_owns ho htakes
    dsimp only
    rw [Action.on_bind, Action.on_attempt]
    dsimp only
    rcases queue_conn frameType timestamp payload (h.media.normalize frameType payload) t with
      hqueue | hqueue
    · rw [hqueue]
      dsimp only
      split
      · rename_i hother
        rw [if_pos hother] at hundone
        exact hundone
      · rename_i hsame
        rw [if_neg hsame] at hundone
        exact hundone
    · rw [hqueue]
      refine ⟨hclaimed, howns, ?_⟩
      have hframe : t.conn.relayFrame frameType timestamp payload
          (h.media.normalize frameType payload) = s.conn.relayFrame frameType timestamp payload
          (h.media.normalize frameType payload) := by
        cases htakes <;> rfl
      have hrelay : t.conn.pendingRelay = s.conn.pendingRelay := by
        cases htakes <;> rfl
      rw [← hframe, ← hrelay]
  | contended =>
    cases htakes
    exact held_key_restored (fun _ => rfl)
  | evictionQueueFull =>
    cases htakes with
    | full routes hr => exact held_key_restored hr

def crampedSession : Session where
  conn := { connId := 7, app := "live", relayKey := "b", publishRoutes := true,
            claimedPublishRoute := some "a", maxPendingRelayBytes := 0 }
  routes := (∅ : Routes).insert ("live", "a") 7

/-- Its inject fails after the route was switched, and the switch is taken back. -/
theorem cramped_inject_undone :
    ((injectRelayFrame {} .audio 0 [1]).on crampedSession).1 = .error .internal ∧
      Uninjected crampedSession ((injectRelayFrame {} .audio 0 [1]).on crampedSession).2 := by
  have howns : OwnsJust 7 "live" (some "a") ((∅ : Routes).insert ("live", "a") 7) := by
    intro a r
    rw [Maps.lookup_insert]
    simp [eq_comm]
  have hfails : ((injectRelayFrame {} .audio 0 [1]).on crampedSession).1 = .error .internal := by
    decide +kernel
  have hboth := inject_all_or_nothing {} .audio 0 [1] crampedSession rfl howns
  generalize (injectRelayFrame {} .audio 0 [1]).on crampedSession = r at hfails hboth
  obtain ⟨r, t⟩ := r
  dsimp only at hfails
  subst hfails
  exact ⟨rfl, hboth⟩

end Injecting

end LibRtmp.Proofs
