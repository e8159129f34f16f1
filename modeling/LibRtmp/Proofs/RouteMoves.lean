import LibRtmp.Session.Ledger
import LibRtmp.Session.Standing

namespace LibRtmp.Proofs

open Relation (ReflTransGen)

variable (c : Conn) (route : RouteKey)

section Table

variable {m : Routes} {c d : Nat} {app stream : String} {k : RouteKey}

theorem lookup_claim_other (h : d ≠ c) :
    (m.claim c app stream).2.lookup k = some d ↔ m.lookup k = some d := by
  have inserted : ∀ (_ : m.lookup (app, stream) ≠ some d),
      (m.insert (app, stream) c).lookup k = some d ↔ m.lookup k = some d := by
    intro hm
    rw [Maps.lookup_insert]
    constructor
    · rintro (⟨_, hc⟩ | ⟨_, hk⟩)
      · exact absurd hc.symm h
      · exact hk
    · intro hk
      exact .inr ⟨fun he => hm (he ▸ hk), hk⟩
  unfold Routes.claim
  split
  · rename_i owner ho
    split
    · exact Iff.rfl
    · rename_i hne
      rw [not_ne_iff.mp hne] at ho
      exact inserted (by rw [ho]; exact fun he => h (Option.some.inj he).symm)
  · rename_i hn
    exact inserted (by rw [hn]; exact Option.some_ne_none _ |>.symm)

theorem lookup_claim_own (h : (m.claim c app stream).2.lookup k = some c) :
    k = (app, stream) ∨ m.lookup k = some c := by
  have inserted : (m.insert (app, stream) c).lookup k = some c →
      k = (app, stream) ∨ m.lookup k = some c := by
    rw [Maps.lookup_insert]
    rintro (⟨hk, _⟩ | ⟨_, hk⟩)
    · exact .inl hk
    · exact .inr hk
  unfold Routes.claim at h
  split at h
  · split at h
    · exact .inr h
    · exact inserted h
  · exact inserted h

theorem lookup_release_other (h : d ≠ c) :
    (m.release c app stream).lookup k = some d ↔ m.lookup k = some d := by
  unfold Routes.release
  split
  · rename_i hc
    rw [Maps.lookup_erase]
    constructor
    · exact And.right
    · intro hk
      refine ⟨?_, hk⟩
      rintro rfl
      rw [hc] at hk
      exact h (Option.some.inj hk).symm
  · exact Iff.rfl

theorem lookup_release_own (h : (m.release c app stream).lookup k = some c) :
    k ≠ (app, stream) ∧ m.lookup k = some c := by
  unfold Routes.release at h
  split at h
  · exact Maps.lookup_erase m _ _ _ |>.mp h
  · rename_i hn
    refine ⟨?_, h⟩
    rintro rfl
    exact hn h

end Table

section Reroutes

variable {l : Ledger} {prev stream : String}

theorem reroutes_release (h : l.claimed = some prev) :
    l.Reroutes none (l.routes.release l.connId l.app prev) := by
  refine ⟨fun k d hd => lookup_release_other hd, ?_⟩
  intro own a r hr
  obtain ⟨hne, hr⟩ := lookup_release_own hr
  obtain ⟨ha, hc⟩ := own a r hr
  rw [h] at hc
  exact absurd (Prod.ext ha (Option.some.inj hc).symm) hne

/-- Taking a route when none is held, or the same one again. -/
theorem reroutes_claim (h : l.claimed = none ∨ l.claimed = some stream) :
    l.Reroutes (some stream) (l.routes.claim l.connId l.app stream).2 := by
  refine ⟨fun k d hd => lookup_claim_other hd, ?_⟩
  intro own a r hr
  rcases lookup_claim_own hr with he | hr
  · cases he
    exact ⟨rfl, rfl⟩
  · obtain ⟨ha, hc⟩ := own a r hr
    rcases h with h | h
    · rw [h] at hc
      cases hc
    · exact ⟨ha, h ▸ hc⟩

/-- Taking a route and then giving up the one held before. -/
theorem reroutes_switch (h : l.claimed = some prev) :
    l.Reroutes (some stream)
      ((l.routes.claim l.connId l.app stream).2.release l.connId l.app prev) := by
  refine ⟨fun k d hd => (lookup_release_other hd).trans (lookup_claim_other hd), ?_⟩
  intro own a r hr
  obtain ⟨hne, hr⟩ := lookup_release_own hr
  rcases lookup_claim_own hr with he | hr
  · cases he
    exact ⟨rfl, rfl⟩
  · obtain ⟨ha, hc⟩ := own a r hr
    rw [h] at hc
    exact absurd (Prod.ext ha (Option.some.inj hc).symm) hne

/-- Going back to an earlier route, whatever was claimed in between. -/
theorem reroutes_back (h : l.claimed = some stream) :
    l.Reroutes (some prev)
      ((l.routes.release l.connId l.app stream).claim l.connId l.app prev).2 := by
  refine ⟨fun k d hd => (lookup_claim_other hd).trans (lookup_release_other hd), ?_⟩
  intro own a r hr
  rcases lookup_claim_own hr with he | hr
  · cases he
    exact ⟨rfl, rfl⟩
  · obtain ⟨hne, hr⟩ := lookup_release_own hr
    obtain ⟨ha, hc⟩ := own a r hr
    rw [h] at hc
    exact absurd (Prod.ext ha (Option.some.inj hc).symm) hne

/-- A switch that is undone at once. -/
theorem reroutes_undone (h : l.claimed = some prev) :
    l.Reroutes (some prev)
      ((((l.routes.claim l.connId l.app stream).2.release l.connId l.app prev).release l.connId
        l.app stream).claim l.connId l.app prev).2 := by
  constructor
  · intro k d hd
    rw [lookup_claim_other hd, lookup_release_other hd, lookup_release_other hd,
      lookup_claim_other hd]
  · intro own a r hr
    rcases lookup_claim_own hr with he | hr
    · cases he
      exact ⟨rfl, rfl⟩
    · obtain ⟨hns, hr⟩ := lookup_release_own hr
      obtain ⟨_, hr⟩ := lookup_release_own hr
      rcases lookup_claim_own hr with he | hr
      · exact absurd he hns
      · exact h ▸ own a r hr

end Reroutes

section Evictions

def Barred (c : Conn) (k : RouteKey) : Prop :=
  k ∈ c.pendingCacheEvictions ∨ k ∈ c.abandonedRelayRoutes ∨
    ∀ f ∈ c.pendingRelay, (f.app, f.streamName) ≠ k

def Drops (c d : Conn) : Prop :=
  ∃ relay evictions abandoned, relay.Sublist c.pendingRelay ∧
    d = { c with
      pendingRelay := relay, pendingCacheEvictions := evictions, abandonedRelayRoutes := abandoned }

structure Evicts (c d : Conn) : Prop where
  drops : Drops c d
  barred : ∀ k, Barred c k → Barred d k

theorem Drops.trans {c d e : Conn} (h : Drops c d) (h' : Drops d e) : Drops c e := by
  obtain ⟨_, _, _, hs, rfl⟩ := h
  obtain ⟨_, _, _, hs', rfl⟩ := h'
  exact ⟨_, _, _, hs'.trans hs, rfl⟩

theorem Evicts.refl : Evicts c c := ⟨⟨_, _, _, .refl _, rfl⟩, fun _ hk => hk⟩

theorem Evicts.trans {c d e : Conn} (h : Evicts c d) (h' : Evicts d e) : Evicts c e :=
  ⟨h.drops.trans h'.drops, fun k hk => h'.barred k (h.barred k hk)⟩

theorem note_abandoned_drops :
    Drops c (c.noteAbandonedRelayRoute route) := by
  unfold Conn.noteAbandonedRelayRoute
  dsimp only
  split
  · split
    · exact ⟨_, _, _, List.filter_sublist, rfl⟩
    · exact ⟨_, _, _, .refl _, rfl⟩
  · exact ⟨_, _, _, .refl _, rfl⟩

theorem note_abandoned_evictions :
    (c.noteAbandonedRelayRoute route).pendingCacheEvictions = c.pendingCacheEvictions := by
  unfold Conn.noteAbandonedRelayRoute
  dsimp only
  split
  · split <;> rfl
  · rfl

theorem note_abandoned_marks :
    route ∈ (c.noteAbandonedRelayRoute route).abandonedRelayRoutes := by
  unfold Conn.noteAbandonedRelayRoute
  dsimp only
  split
  · split <;> simp
  · simp

/-- A marker is kept, renewed, or given up together with its frames. -/
theorem note_abandoned_barred {k : RouteKey} (h : Barred c k) :
    Barred (c.noteAbandonedRelayRoute route) k := by
  by_cases hk : k = route
  · exact .inr (.inl (hk ▸ note_abandoned_marks c route))
  rcases h with hqueued | hmarked | hnone
  · exact .inl ((note_abandoned_evictions c route).symm ▸ hqueued)
  · right
    have hkept : k ∈ c.abandonedRelayRoutes.filter (fun r => r ≠ route) := by simp [hmarked, hk]
    unfold Conn.noteAbandonedRelayRoute
    dsimp only
    split
    · rename_i old rest hold
      rw [hold] at hkept
      split
      · rcases List.mem_cons.mp hkept with rfl | hrest
        · exact .inr fun f hf => by simpa using (List.mem_filter.mp hf).2
        · exact .inl (List.mem_append_left _ hrest)
      · rw [hold]
        exact .inl (List.mem_append_left _ hkept)
    · rename_i hnil
      rw [hnil] at hkept
      cases hkept
  · obtain ⟨_, _, _, hs, heq⟩ := note_abandoned_drops c route
    rw [heq]
    exact .inr (.inr fun f hf => hnone f (hs.subset hf))

theorem push_eviction_evicts (k : RouteKey) :
    Evicts c { c with pendingCacheEvictions := c.pendingCacheEvictions ++ [k] } :=
  ⟨⟨_, _, _, .refl _, rfl⟩, fun _ hk => hk.imp_left (List.mem_append_left _)⟩

/-- The oldest eviction becomes a marker. -/
theorem pop_eviction_evicts {old : RouteKey} {rest : List RouteKey}
    (h : c.pendingCacheEvictions = old :: rest) :
    Evicts c ({ c with pendingCacheEvictions := rest }.noteAbandonedRelayRoute old) := by
  constructor
  · have hpop : Drops c { c with pendingCacheEvictions := rest } := ⟨_, _, _, .refl _, rfl⟩
    exact hpop.trans (note_abandoned_drops _ old)
  · intro k hk
    by_cases he : k = old
    · subst he
      exact .inr (.inl (note_abandoned_marks _ k))
    · refine note_abandoned_barred _ old ?_
      rcases hk with hqueued | hbarred
      · rw [h] at hqueued
        exact .inl ((List.mem_cons.mp hqueued).resolve_left he)
      · exact .inr hbarred

theorem try_push_evicts :
    Evicts c (c.tryPushPendingCacheEviction route) := by
  unfold Conn.tryPushPendingCacheEviction
  dsimp only
  split
  · rename_i old rest hold
    split
    · exact (pop_eviction_evicts c hold).trans (push_eviction_evicts _ _)
    · exact push_eviction_evicts c _
  · exact push_eviction_evicts c _

theorem try_push_queued :
    (c.tryPushPendingCacheEviction route).pendingCacheEvictions ≠ [] := by
  unfold Conn.tryPushPendingCacheEviction
  exact List.append_ne_nil_of_right_ne_nil _ (List.cons_ne_nil _ _)

/-- Nothing was evicted, or some eviction is queued now. -/
theorem evict_both_evicts (first second : String) :
    Evicts c (c.evictBoth first second) ∧
      (c.evictBoth first second = c ∨ (c.evictBoth first second).pendingCacheEvictions ≠ []) := by
  unfold Conn.evictBoth
  dsimp only
  split
  · split
    · exact ⟨(try_push_evicts c _).trans (try_push_evicts _ _), .inr (try_push_queued _ _)⟩
    · exact ⟨try_push_evicts c _, .inr (try_push_queued _ _)⟩
  · split
    · exact ⟨try_push_evicts c _, .inr (try_push_queued _ _)⟩
    · exact ⟨.refl c, .inl rfl⟩

end Evictions

section Paths

variable (cause : Cause)

abbrev Path (cause : Cause) : Ledger → Ledger → Prop := ReflTransGen (Ledger.Step cause)

def Held (s t : Session) : Prop :=
  t.conn.currentStream = s.conn.currentStream ∧
    t.conn.deferMediaRelay = s.conn.deferMediaRelay ∧ t.conn.state = s.conn.state

theorem Held.refl (s : Session) : Held s s := ⟨rfl, rfl, rfl⟩

theorem Held.trans {s t u : Session} (h : Held s t) (h' : Held t u) : Held s u :=
  ⟨h'.1.trans h.1, h'.2.1.trans h.2.1, h'.2.2.trans h.2.2⟩

theorem held_of_tidies {s t : Session} (h : Tidies s.conn t.conn) : Held s t :=
  ⟨h.routine.stream, congrArg (fun k => k.standing.deferMediaRelay) h.1, congrArg Core.state h.1⟩

theorem evicts_path {c d : Conn} (routes : Routes) (h : Evicts c d)
    (hq : d = c ∨ d.pendingCacheEvictions ≠ []) :
    Path cause (Session.ledger ⟨c, routes⟩) (Session.ledger ⟨d, routes⟩) ∧
      Tidies c d := by
  obtain ⟨⟨relay, evictions, abandoned, hs, rfl⟩, hb⟩ := h
  rcases hq with hq | hq
  · rw [hq]
    exact ⟨.refl, .refl _⟩
  · exact ⟨.single (.evict relay evictions abandoned hs hq hb), rfl, .inl rfl⟩

theorem release_claimed_path (s : Session) :
    Path cause s.ledger s.releaseClaimedPublishRoute.ledger ∧
      Tidies s.conn s.releaseClaimedPublishRoute.conn := by
  unfold Session.releaseClaimedPublishRoute
  split
  · exact ⟨.refl, .refl _⟩
  · rename_i prev hp
    refine ⟨.single (.reroute none _ ?_ (fun h => absurd h (by simp))), rfl, .inl rfl⟩
    intro hs
    have hs : s.conn.publishRoutes = true := hs
    rw [if_pos hs]
    exact reroutes_release (l := s.ledger) hp

theorem evict_active_path (s : Session) :
    Path cause s.ledger s.evictActivePublishRoute.ledger ∧
      Tidies s.conn s.evictActivePublishRoute.conn := by
  obtain ⟨hp, hh⟩ := release_claimed_path cause s
  obtain ⟨he, hq⟩ := evict_both_evicts s.releaseClaimedPublishRoute.conn
    (s.conn.claimedPublishRoute.getD "") (if s.conn.isPublishing then s.conn.relayRouteKey else "")
  obtain ⟨hp', hh'⟩ := evicts_path cause s.releaseClaimedPublishRoute.routes he hq
  exact ⟨hp.trans hp', (hh.trans hh').1, .inr rfl⟩

theorem push_eviction_path {c d : Conn} {k : RouteKey} (routes : Routes)
    (h : c.pushPendingCacheEviction k = some d) :
    Path cause (Session.ledger ⟨c, routes⟩) (Session.ledger ⟨d, routes⟩) ∧
      Tidies c d := by
  unfold Conn.pushPendingCacheEviction at h
  split at h
  · cases h
  · cases h
    exact evicts_path cause routes (push_eviction_evicts c _)
      (.inr (List.append_ne_nil_of_right_ne_nil _ (List.cons_ne_nil k [])))

/-- The route switch of a claim while another route is held. -/
theorem switch_route_path {prev : String} {c d : Conn} (stream : String) (routes : Routes)
    (hp : c.claimedPublishRoute = some prev)
    (hd : (if prev ≠ "" then c.pushPendingCacheEviction (c.app, prev) else some c) = some d) :
    Path cause (Session.ledger ⟨c, routes⟩) (Session.ledger
      ⟨{ d with claimedPublishRoute := some stream },
        (routes.claim c.connId c.app stream).2.release c.connId c.app prev⟩) ∧
      Tidies c { d with claimedPublishRoute := some stream } := by
  have hswitch : Path cause (Session.ledger ⟨c, routes⟩) (Session.ledger
      ⟨{ c with claimedPublishRoute := some stream },
        (routes.claim c.connId c.app stream).2.release c.connId c.app prev⟩) :=
    .single (.reroute _ _ (fun _ => reroutes_switch (l := Session.ledger ⟨c, routes⟩) hp)
      (fun _ => .inl (by simp [Session.ledger, hp])))
  split at hd
  · unfold Conn.pushPendingCacheEviction at hd
    split at hd
    · cases hd
    · cases hd
      refine ⟨hswitch.tail ?_, rfl, .inl rfl⟩
      exact .evict _ _ _ (.refl _) (List.append_ne_nil_of_right_ne_nil _ (List.cons_ne_nil _ _))
        (push_eviction_evicts c (c.app, prev)).barred
  · cases hd
    exact ⟨hswitch, rfl, .inl rfl⟩

/-- Claiming a route moves along the abstract session; on success it is the one remembered. -/
theorem claim_route_path (hc : cause.claims) (stream : String) (s : Session) :
    Path cause s.ledger (s.claimPublishRoute stream).2.ledger ∧
      Tidies s.conn (s.claimPublishRoute stream).2.conn ∧
      ((s.claimPublishRoute stream).1 = .claimed →
        (s.claimPublishRoute stream).2.conn.claimedPublishRoute = some stream) := by
  obtain ⟨c, m⟩ := s
  unfold Session.claimPublishRoute
  dsimp only
  split
  · split
    · exact ⟨.refl, .refl _, fun h => by cases h⟩
    · rename_i routes hr
      obtain rfl : (m.claim c.connId c.app stream).2 = routes := by rw [hr]
      split
      · rename_i hn
        refine ⟨.single (.reroute _ _ ?_ (fun _ => .inr hc)), ⟨rfl, .inl rfl⟩, fun _ => rfl⟩
        exact fun _ => reroutes_claim (l := Session.ledger ⟨c, m⟩) (.inl hn)
      · rename_i prev hp
        split
        · rename_i he
          subst he
          refine ⟨?_, ⟨rfl, .inl rfl⟩, fun _ => hp⟩
          exact .single (.reroute c.claimedPublishRoute _ (fun _ => by
            rw [hp]
            exact reroutes_claim (l := Session.ledger ⟨c, m⟩) (.inr hp)) (fun _ => .inr hc))
        · split
          · rename_i d hd
            obtain ⟨hpath, hh⟩ := switch_route_path cause stream m hp hd
            exact ⟨hpath, hh, fun _ => rfl⟩
          · refine ⟨.single (.reroute c.claimedPublishRoute _ ?_ (fun _ => .inr hc)), ⟨rfl, .inl rfl⟩,
              fun h => by cases h⟩
            intro _
            rw [hp]
            exact reroutes_undone (l := Session.ledger ⟨c, m⟩) hp
  · exact ⟨.single (.reroute _ _ (fun h => absurd h (by assumption)) (fun _ => .inr hc)),
      ⟨rfl, .inl rfl⟩, fun _ => rfl⟩

/-- Claiming the route of a publish, with the eviction of a rename or its rollback. -/
theorem claim_for_publish_path (hc : cause.claims) (name : String) (s : Session) :
    Path cause s.ledger (s.claimForPublish name).2.ledger ∧
      Tidies s.conn (s.claimForPublish name).2.conn := by
  obtain ⟨hp, hh, hclaimed⟩ := claim_route_path cause hc (s.conn.nextRouteKey name) s
  unfold Session.claimForPublish
  dsimp only
  generalize s.claimPublishRoute (s.conn.nextRouteKey name) = r at hp hh hclaimed
  obtain ⟨outcome, ⟨d, routes⟩⟩ := r
  cases outcome with
  | contended => exact ⟨hp, hh⟩
  | evictionQueueFull => exact ⟨hp, hh⟩
  | claimed =>
    have hclaimed := hclaimed rfl
    dsimp only
    split
    · split
      · rename_i e he
        obtain ⟨hp', hh'⟩ := push_eviction_path cause routes he
        exact ⟨hp.trans hp', hh.trans hh'⟩
      · refine ⟨hp.tail (.reroute _ _ ?_ (fun _ => .inr hc)), hh.trans ⟨rfl, .inl rfl⟩⟩
        intro hs
        have hs : d.publishRoutes = true := hs
        rw [if_pos hs]
        exact reroutes_back (l := Session.ledger ⟨d, routes⟩) hclaimed
    · exact ⟨hp, hh⟩

end Paths

end LibRtmp.Proofs
