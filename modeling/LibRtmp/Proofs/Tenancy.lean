import LibRtmp.Proofs.ActMoves

namespace LibRtmp.Proofs

open Relation (ReflTransGen)

variable {cfg : CacheConfig} {st st' : Stage}

/-- At most the route it remembers is held, and one is remembered only after a `connect`. -/
structure Tenant (l : Ledger) : Prop where
  shared : l.shared = true
  seated : Seated l
  named : l.app ≠ "" → l.joined = true
  joined : l.claimed.isSome = true → l.joined = true
  own : Ledger.OwnsOnlyClaim l.connId l.app l.claimed l.routes

section Ledgers

variable {cause : Cause} {l l' m : Ledger}

structure Lawful (l l' : Ledger) : Prop where
  connId : l'.connId = l.connId
  shared : l'.shared = true
  joined : l.joined = true → l'.joined = true
  named : l'.app ≠ "" → l'.joined = true
  claims : l'.claimed.isSome = true → l'.joined = true
  own : Ledger.OwnsOnlyClaim l'.connId l'.app l'.claimed l'.routes
  others : ∀ k d, d ≠ l.connId → l'.routes.lookup k = some d → l.routes.lookup k = some d

theorem Tenant.lawful (h : Tenant l) : Lawful l l :=
  ⟨rfl, h.shared, fun hj => hj, h.named, h.joined, h.own, fun _ _ _ hk => hk⟩

/-- A move that leaves app, claim and routes alone. -/
theorem Lawful.aside (h : Lawful l m) (hid : l'.connId = m.connId) (hs : l'.shared = m.shared)
    (happ : l'.app = m.app) (hj : l'.joined = m.joined) (hc : l'.claimed = m.claimed)
    (hr : l'.routes = m.routes) : Lawful l l' := by
  obtain ⟨h1, h2, h3, h4, h5, h6, h7⟩ := h
  constructor
  · rw [hid, h1]
  · rw [hs, h2]
  · rwa [hj]
  · rwa [happ, hj]
  · rwa [hc, hj]
  · rwa [hid, happ, hc, hr]
  · rwa [hr]

/-- One more step of the ledger is lawful too. -/
theorem Lawful.step (hc : cause.claims → l.joined = true) (h : Lawful l m) (hs : m.Step cause l') :
    Lawful l l' := by
  cases hs with
  | enter app hj =>
    have hnone : m.claimed = none := by
      rw [← Option.not_isSome_iff_eq_none]
      intro hsome
      rw [h.claims hsome] at hj
      cases hj
    refine ⟨h.connId, h.shared, ?_, ?_, ?_, ?_, h.others⟩
    · intro hl
      rw [h.joined hl] at hj
      cases hj
    · exact fun happ => decide_eq_true happ
    · intro hsome
      rw [hnone] at hsome
      cases hsome
    · intro a r hr
      have hclaim := (h.own a r hr).2
      rw [hnone] at hclaim
      cases hclaim
  | advance _ => exact ⟨h.connId, h.shared, fun _ => rfl, fun _ => rfl, fun _ => rfl, h.own, h.others⟩
  | reroute claimed routes hr hcl =>
    have hmoved := hr h.shared
    refine ⟨h.connId, h.shared, h.joined, h.named, ?_, hmoved.own h.own, ?_⟩
    · intro hsome
      rcases hcl hsome with hm | hcause
      · exact h.claims hm
      · exact h.joined (hc hcause)
    · intro k d hd hk
      exact h.others k d hd ((hmoved.others k d (h.connId ▸ hd)).mp hk)
  | revoke routes hr =>
    refine ⟨h.connId, h.shared, h.joined, h.named, h.claims, ?_, ?_⟩
    · exact fun a r hk => h.own a r (hr _ _ hk)
    · exact fun k d hd hk => h.others k d hd (hr k d hk)
  | openStream _ _ => exact h.aside rfl rfl rfl rfl rfl rfl
  | idle => exact h.aside rfl rfl rfl rfl rfl rfl
  | forget _ => exact h.aside rfl rfl rfl rfl rfl rfl
  | wait _ _ _ _ _ => exact h.aside rfl rfl rfl rfl rfl rfl
  | grant _ _ _ => exact h.aside rfl rfl rfl rfl rfl rfl
  | evict _ _ _ _ _ _ => exact h.aside rfl rfl rfl rfl rfl rfl
  | restore _ _ => exact h.aside rfl rfl rfl rfl rfl rfl
  | discard _ => exact h.aside rfl rfl rfl rfl rfl rfl

theorem lawful_path (hc : cause.claims → l.joined = true) (ht : Tenant l)
    (hp : ReflTransGen (Ledger.Acts cause) l l') : Lawful l l' := by
  induction hp with
  | refl => exact ht.lawful
  | tail _ ha ih =>
    rcases ha with hs | hq
    · exact ih.step hc hs
    · cases hq
      exact ih.aside rfl rfl rfl rfl rfl rfl

/-- A tenant stays one, and takes no route from others. -/
theorem tenant_path (hc : cause.claims → l.joined = true) (ht : Tenant l)
    (hp : ReflTransGen (Ledger.Acts cause) l l') :
    Tenant l' ∧ l'.connId = l.connId ∧
      ∀ k d, d ≠ l.connId → l'.routes.lookup k = some d → l.routes.lookup k = some d := by
  have hl := lawful_path hc ht hp
  exact ⟨⟨hl.shared, (warranted_path ht.seated hp).seated, hl.named, hl.claims, hl.own⟩,
    hl.connId, hl.others⟩

end Ledgers

structure Tenancy (s : Server) : Prop where
  ids : (s.connections.map Conn.connId).Nodup
  below : ∀ c ∈ s.connections, 0 < c.connId ∧ c.connId < s.nextConnId
  range : 0 < s.nextConnId ∧ s.nextConnId ≤ externalPublisherIdBit
  tenants : ∀ c ∈ s.connections, Tenant (Session.ledger ⟨c, s.activePublishRoutes⟩)
  known : ∀ k d, s.activePublishRoutes.lookup k = some d →
    isExternalPublisherId d = true ∨ d ∈ s.connections.map Conn.connId
  external : ∀ k d, s.externalRouteIds.lookup k = some d → isExternalPublisherId d = true

section Rows

variable {s : Server} {i : Nat} {c : Conn}

/-- A tenant whose routes only lost entries. -/
theorem Tenant.shrink {c : Conn} {routes routes' : Routes}
    (h : Tenant (Session.ledger ⟨c, routes⟩))
    (hr : ∀ k, routes'.lookup k = some c.connId → routes.lookup k = some c.connId) :
    Tenant (Session.ledger ⟨c, routes'⟩) :=
  ⟨h.shared, ⟨h.seated.stream, h.seated.waiting⟩, h.named, h.joined,
    fun a r hk => h.own a r (hr _ hk)⟩

theorem conn_ids_set {connections : List Conn} {i : Nat} {c d : Conn}
    (hc : connections[i]? = some c) (hid : d.connId = c.connId) :
    (connections.set i d).map Conn.connId = connections.map Conn.connId := by
  have hrows : List.Forall₂ (fun a b : Conn => b.connId = a.connId) connections
      (connections.set i d) := Rows.forall₂_set (fun _ => rfl) hc hid
  exact Rows.forall₂_map_eq hrows fun h => h

/-- Connections with different indices have different ids. -/
theorem ids_apart {connections : List Conn} {i j : Nat} {c d : Conn}
    (h : (connections.map Conn.connId).Nodup) (hi : connections[i]? = some c)
    (hj : connections[j]? = some d) (hid : c.connId = d.connId) : i = j := by
  have hi' : (connections.map Conn.connId)[i]? = some c.connId := by simp [hi]
  have hj' : (connections.map Conn.connId)[j]? = some c.connId := by simp [hj, hid]
  obtain ⟨hlt, _⟩ := List.getElem?_eq_some_iff.mp hi'
  exact (List.getElem?_inj hlt h).mp (hi'.trans hj'.symm)

/-- One connection changed, and the routes with it. -/
theorem Tenancy.put (h : Tenancy s) (hc : s.connections[i]? = some c) {t : Session}
    (ht : Tenant t.ledger) (hid : t.conn.connId = c.connId)
    (hothers : ∀ k d, d ≠ c.connId → t.routes.lookup k = some d →
      s.activePublishRoutes.lookup k = some d) : Tenancy (s.put i t) := by
  have hids := conn_ids_set hc hid
  have hrow : ∀ d ∈ (s.put i t).connections, d = t.conn ∨
      (d ∈ s.connections ∧ d.connId ≠ c.connId) := by
    intro d hd
    obtain ⟨j, hj⟩ := List.mem_iff_getElem?.mp hd
    by_cases hij : i = j
    · subst hij
      have hlt : i < s.connections.length := (List.getElem?_eq_some_iff.mp hc).1
      have hself : (s.put i t).connections[i]? = some t.conn := List.getElem?_set_self hlt
      rw [hself] at hj
      exact .inl (Option.some.inj hj).symm
    · have hsame : (s.put i t).connections[j]? = s.connections[j]? := List.getElem?_set_ne hij
      rw [hsame] at hj
      exact .inr ⟨List.mem_of_getElem? hj, fun he => hij (ids_apart h.ids hc hj he.symm)⟩
  constructor
  · exact hids ▸ h.ids
  · intro d hd
    rcases hrow d hd with rfl | ⟨hd, _⟩
    · rw [hid]
      exact h.below c (List.mem_of_getElem? hc)
    · exact h.below d hd
  · exact h.range
  · intro d hd
    rcases hrow d hd with rfl | ⟨hd, hne⟩
    · exact ht
    · exact (h.tenants d hd).shrink fun k hk => hothers k d.connId hne hk
  · intro k d hk
    by_cases hd : d = c.connId
    · right
      rw [show (s.put i t).connections.map Conn.connId = s.connections.map Conn.connId from hids, hd]
      exact List.mem_map.mpr ⟨c, List.mem_of_getElem? hc, rfl⟩
    · rw [show (s.put i t).connections.map Conn.connId = s.connections.map Conn.connId from hids]
      exact h.known k d (hothers k d hd hk)
  · exact h.external

/-- Entries of the route table were removed. -/
theorem Tenancy.shrink (h : Tenancy s) {routes : Routes}
    (hr : ∀ k d, routes.lookup k = some d → s.activePublishRoutes.lookup k = some d) :
    Tenancy { s with activePublishRoutes := routes } :=
  ⟨h.ids, h.below, h.range, fun c hc => (h.tenants c hc).shrink fun k hk => hr k _ hk,
    fun k d hk => h.known k d (hr k d hk), h.external⟩

def Kept (c d : Conn) : Prop :=
  ∀ routes, ∃ relay evictions abandoned, Session.ledger ⟨d, routes⟩ =
    { Session.ledger ⟨c, routes⟩ with relay, evictions, abandoned }

theorem kept_of_unseen {c d : Conn} (h : Unseen c d) : Kept c d :=
  fun routes => ⟨_, _, _, h routes⟩

theorem Kept.refl (c : Conn) : Kept c c := fun _ => ⟨_, _, _, rfl⟩

theorem Kept.trans {c d e : Conn} (h : Kept c d) (h' : Kept d e) : Kept c e := by
  intro routes
  obtain ⟨_, _, _, hd⟩ := h routes
  obtain ⟨_, _, _, he⟩ := h' routes
  rw [he, hd]
  exact ⟨_, _, _, rfl⟩

theorem Kept.conn_id {c d : Conn} (h : Kept c d) : d.connId = c.connId := by
  obtain ⟨_, _, _, h⟩ := h ∅
  exact congrArg Ledger.connId h

theorem Kept.app {c d : Conn} (h : Kept c d) : d.app = c.app := by
  obtain ⟨_, _, _, h⟩ := h ∅
  exact congrArg Ledger.app h

theorem Kept.claimed {c d : Conn} (h : Kept c d) :
    d.claimedPublishRoute = c.claimedPublishRoute := by
  obtain ⟨_, _, _, h⟩ := h ∅
  exact congrArg Ledger.claimed h

theorem Kept.tenant {c d : Conn} {routes : Routes} (h : Kept c d)
    (ht : Tenant (Session.ledger ⟨c, routes⟩)) : Tenant (Session.ledger ⟨d, routes⟩) := by
  obtain ⟨_, _, _, h⟩ := h routes
  rw [h]
  exact ⟨ht.shared, ⟨ht.seated.stream, ht.seated.waiting⟩, ht.named, ht.joined, ht.own⟩

structure Keeps (s s' : Server) : Prop where
  conns : List.Forall₂ Kept s.connections s'.connections
  routes : s'.activePublishRoutes = s.activePublishRoutes
  next : s'.nextConnId = s.nextConnId
  ids : s'.externalRouteIds = s.externalRouteIds

theorem Tenancy.keeps {s' : Server} (h : Tenancy s) (hk : Keeps s s') : Tenancy s' := by
  have hids : s'.connections.map Conn.connId = s.connections.map Conn.connId :=
    Rows.forall₂_map_eq hk.conns fun hab => hab.conn_id
  constructor
  · exact hids ▸ h.ids
  · intro d hd
    obtain ⟨c, hc, hcd⟩ := Rows.forall₂_mem_back hk.conns hd
    rw [hcd.conn_id, hk.next]
    exact h.below c hc
  · exact hk.next ▸ h.range
  · intro d hd
    obtain ⟨c, hc, hcd⟩ := Rows.forall₂_mem_back hk.conns hd
    rw [hk.routes]
    exact hcd.tenant (h.tenants c hc)
  · intro k d hl
    rw [hk.routes] at hl
    rw [hids]
    exact h.known k d hl
  · exact hk.ids ▸ h.external

end Rows

section Keeping

variable {s : Server}

theorem kept_relay (c : Conn) (relay : List RelayFrame) : Kept c { c with pendingRelay := relay } :=
  fun _ => ⟨_, _, _, rfl⟩

theorem Drops.kept {c d : Conn} (h : Drops c d) : Kept c d := by
  obtain ⟨_, _, _, _, rfl⟩ := h
  exact fun _ => ⟨_, _, _, rfl⟩

theorem note_all_drops (keys : List RouteKey) (c : Conn) :
    Drops c (keys.foldl Conn.noteAbandonedRelayRoute c) := by
  induction keys generalizing c with
  | nil => exact (Evicts.refl c).drops
  | cons k keys ih => exact (note_abandoned_drops c k).trans (ih _)

theorem drain_keeps (s : Server) (i : Nat) : Keeps s (Server.drainOne ([], s) i).2 := by
  unfold Server.drainOne
  dsimp only
  split
  · exact ⟨Rows.forall₂_refl Kept.refl _, rfl, rfl, rfl⟩
  · rename_i c hc
    have hcleared : Drops c { c with pendingCacheEvictions := [] } := ⟨_, _, _, .refl _, rfl⟩
    exact ⟨Rows.forall₂_set Kept.refl hc (hcleared.trans (note_all_drops _ _)).kept, rfl, rfl, rfl⟩

theorem map_keeps {f : Conn → Conn} (hf : ∀ c, Kept c (f c)) (connections : List Conn) :
    List.Forall₂ Kept connections (connections.map f) := by
  induction connections with
  | nil => exact .nil
  | cons c connections ih => exact .cons (hf c) ih

theorem push_orphan_same (s : Server) (frame : RelayFrame) :
    ∃ orphanedRelay, s.pushOrphanedRelay frame = { s with orphanedRelay } := by
  unfold Server.pushOrphanedRelay
  split
  · exact ⟨_, rfl⟩
  · exact ⟨_, rfl⟩

theorem push_orphans_same (frames : List RelayFrame) (s : Server) :
    ∃ orphanedRelay, frames.foldl Server.pushOrphanedRelay s = { s with orphanedRelay } := by
  induction frames generalizing s with
  | nil => exact ⟨_, rfl⟩
  | cons frame frames ih =>
    obtain ⟨orphaned, h⟩ := push_orphan_same s frame
    obtain ⟨orphaned', h'⟩ := ih { s with orphanedRelay := orphaned }
    exact ⟨orphaned', by rw [List.foldl_cons, h, h']⟩

theorem requeue_keeps (s : Server) (frame : RelayFrame) : Keeps s (s.requeueRelayFrame frame) := by
  unfold Server.requeueRelayFrame
  split
  · exact ⟨Rows.forall₂_refl Kept.refl _, rfl, rfl, rfl⟩
  · split
    · rename_i i hi
      obtain ⟨c, hc, _⟩ := index_of_row hi
      refine ⟨?_, rfl, rfl, rfl⟩
      dsimp only
      rw [List.modify_eq_set_getElem?, hc]
      exact Rows.forall₂_set Kept.refl hc (kept_relay c _)
    · obtain ⟨orphaned, h⟩ := push_orphan_same s frame
      rw [h]
      exact ⟨Rows.forall₂_refl Kept.refl _, rfl, rfl, rfl⟩

/-- A calm step keeps all claims. -/
theorem calm_keeps (h : st.Calm cfg st') :
    Keeps st.server st'.server := by
  cases h with
  | aside connections ha =>
    exact ⟨ha.imp fun _ _ hab => kept_of_unseen hab.unseen, rfl, rfl, rfl⟩
  | replay i c hc =>
    exact ⟨Rows.forall₂_set Kept.refl hc (kept_of_unseen (replay_unseen _ _ c)), rfl, rfl, rfl⟩
  | drain i _ => exact drain_keeps st.server i
  | trim abandoned _ _ =>
    refine ⟨map_keeps (fun c => ?_) _, rfl, rfl, rfl⟩
    split
    · exact kept_relay c _
    · exact .refl c
  | take _ _ =>
    refine ⟨map_keeps (fun c => ?_) _, rfl, rfl, rfl⟩
    split
    · exact kept_relay c _
    · exact .refl c
  | handle frame rest abandoned connections cache events _ _ _ ho _ =>
    exact ⟨ho.aside.imp fun _ _ hab => kept_of_unseen hab.unseen, rfl, rfl, rfl⟩
  | requeue frame rest _ => exact requeue_keeps st.server frame

theorem remove_server {i : Nat} {c : Conn} (hc : s.connections[i]? = some c) :
    ∃ orphanedRelay, (Pass.removeOne { server := s } i).server =
      { s with
        orphanedRelay
        activePublishRoutes := s.activePublishRoutes.releaseAll c.connId
        cache := s.cache.forgetPublisher c.connId
        connections := s.connections.eraseIdx i } := by
  obtain ⟨orphaned, h⟩ := push_orphans_same
    (c.pendingRelay.filter (fun f => !isExternalPublisherId f.publisherConnId)) s
  refine ⟨orphaned, ?_⟩
  unfold Pass.removeOne Server.releaseAllPublishRoutes
  dsimp only
  rw [hc]
  dsimp only
  rw [h]

theorem release_all_lookup (routes : Routes) (connId : Nat) (k : RouteKey) (d : Nat) :
    (routes.releaseAll connId).lookup k = some d ↔ routes.lookup k = some d ∧ d ≠ connId := by
  unfold Routes.releaseAll
  rw [Maps.lookup_retain]
  simp

theorem Tenancy.remove (h : Tenancy s) {i : Nat} {c : Conn} (hc : s.connections[i]? = some c) :
    Tenancy (Pass.removeOne { server := s } i).server := by
  obtain ⟨orphaned, heq⟩ := remove_server hc
  rw [heq]
  have hsub := List.eraseIdx_sublist s.connections i
  have hgone : ∀ d, d ∈ s.connections.map Conn.connId → d ≠ c.connId →
      d ∈ (s.connections.eraseIdx i).map Conn.connId := by
    intro d hd hne
    obtain ⟨e, he, rfl⟩ := List.mem_map.mp hd
    obtain ⟨j, hj⟩ := List.mem_iff_getElem?.mp he
    refine List.mem_map.mpr ⟨e, ?_, rfl⟩
    refine List.mem_eraseIdx_iff_getElem?.mpr ⟨j, ?_, hj⟩
    rintro rfl
    rw [hc] at hj
    exact hne (by rw [Option.some.inj hj])
  constructor
  · exact h.ids.sublist (hsub.map _)
  · exact fun d hd => h.below d (hsub.subset hd)
  · exact h.range
  · intro d hd
    refine (h.tenants d (hsub.subset hd)).shrink fun k hk => ?_
    exact ((release_all_lookup _ _ _ _).mp hk).1
  · intro k d hk
    obtain ⟨hk, hne⟩ := (release_all_lookup _ _ _ _).mp hk
    rcases h.known k d hk with hext | hmem
    · exact .inl hext
    · exact .inr (hgone d hmem hne)
  · exact h.external

end Keeping

section Stirring

variable {s : Server}

theorem socket_id_inside {d : Nat} (h : d < externalPublisherIdBit) :
    isExternalPublisherId d = false := Nat.testBit_lt_two_pow h

theorem external_id_outside (n : Nat) :
    isExternalPublisherId (externalPublisherIdBit + n % externalPublisherIdBit) = true := by
  have hlt : n % externalPublisherIdBit < 2 ^ 63 := Nat.mod_lt _ (by decide)
  unfold isExternalPublisherId
  change (2 ^ 63 + n % externalPublisherIdBit).testBit 63 = true
  rw [Nat.testBit_two_pow_add_eq, Nat.testBit_lt_two_pow hlt]
  rfl

theorem Tenancy.socket (h : Tenancy s) {c : Conn} (hc : c ∈ s.connections) :
    isExternalPublisherId c.connId = false :=
  socket_id_inside (Nat.lt_of_lt_of_le (h.below c hc).2 h.range.2)

/-- Entries of other ids than the connections' were added. -/
theorem Tenancy.grow (h : Tenancy s) {routes : Routes}
    (hr : ∀ k d, routes.lookup k = some d →
      isExternalPublisherId d = true ∨ s.activePublishRoutes.lookup k = some d) :
    Tenancy { s with activePublishRoutes := routes } := by
  refine ⟨h.ids, h.below, h.range, ?_, ?_, h.external⟩
  · intro c hc
    refine (h.tenants c hc).shrink fun k hk => ?_
    rcases hr k _ hk with hext | hk
    · rw [h.socket hc] at hext
      cases hext
    · exact hk
  · intro k d hk
    rcases hr k d hk with hext | hk
    · exact .inl hext
    · exact h.known k d hk

theorem detach_kept (c : Conn) {claimed : String} (h : c.claimedPublishRoute = some claimed) :
    Kept { c with claimedPublishRoute := none } c.detachLostPublishRoute := by
  unfold Conn.detachLostPublishRoute
  rw [h]
  dsimp only
  obtain ⟨_, _, _, _, heq⟩ := (evict_both_evicts { c with
    claimedPublishRoute := none
    relayEnabled := false
    pendingRelay := c.pendingRelay.filter (fun f =>
      ¬ (f.app = c.app ∧ (f.streamName = claimed ∨ f.streamName = c.relayRouteKey))) }
    claimed c.relayRouteKey).1.drops
  rw [heq]
  exact fun _ => ⟨_, _, _, rfl⟩

theorem detach_tenant {c : Conn} {routes : Routes} {claimed : String}
    (ht : Tenant (Session.ledger ⟨c, routes⟩)) (hc : c.claimedPublishRoute = some claimed)
    (hl : routes.lookup (c.app, claimed) ≠ some c.connId) :
    Tenant (Session.ledger ⟨c.detachLostPublishRoute, routes⟩) := by
  refine (detach_kept c hc).tenant ⟨ht.shared, ⟨ht.seated.stream, ht.seated.waiting⟩, ht.named,
    (fun hsome => by cases hsome), ?_⟩
  intro a r hr
  obtain ⟨ha, hcl⟩ := ht.own a r hr
  have hsame : claimed = r := Option.some.inj (hc.symm.trans hcl)
  subst hsame
  rw [ha] at hr
  exact absurd hr hl

/-- A connection that was just accepted owns nothing. -/
theorem Tenancy.accept (h : Tenancy s) (now : Nat) (transport : Transport) (fd : Nat) :
    Tenancy (s.addConnection now transport fd) := by
  unfold Server.addConnection
  split
  · exact h
  · rename_i hfree
    rw [not_or, Nat.not_le] at hfree
    have hfresh : ∀ k, s.activePublishRoutes.lookup k ≠ some s.nextConnId := by
      intro k hk
      rcases h.known k _ hk with hext | hmem
      · rw [socket_id_inside hfree.2] at hext
        cases hext
      · obtain ⟨c, hc, hid⟩ := List.mem_map.mp hmem
        have := (h.below c hc).2
        omega
    constructor
    · simp only [List.map_append, List.map_cons, List.map_nil]
      refine List.Nodup.append h.ids (List.nodup_singleton _) ?_
      intro d hd hd'
      obtain ⟨c, hc, rfl⟩ := List.mem_map.mp hd
      have := (h.below c hc).2
      rw [List.mem_singleton.mp hd'] at this
      exact Nat.lt_irrefl _ this
    · intro c hc
      rcases List.mem_append.mp hc with hc | hc
      · exact ⟨(h.below c hc).1, Nat.lt_succ_of_lt (h.below c hc).2⟩
      · rw [List.mem_singleton.mp hc]
        exact ⟨Nat.pos_of_ne_zero hfree.1, Nat.lt_succ_self _⟩
    · exact ⟨Nat.succ_pos _, hfree.2⟩
    · intro c hc
      rcases List.mem_append.mp hc with hc | hc
      · exact h.tenants c hc
      · rw [List.mem_singleton.mp hc]
        have hseated : ∀ role, (PerRole.get (⟨none, none⟩ : PerRole (Option PendingAuth)) role).isSome =
            false := fun role => by cases role <;> rfl
        refine ⟨rfl, ⟨fun hsome => absurd hsome Bool.false_ne_true, fun role hsome => ?_⟩,
          fun happ => absurd rfl happ, fun hsome => absurd hsome Bool.false_ne_true,
          fun a r hr => absurd hr (hfresh _)⟩
        exact absurd (hsome.symm.trans (hseated role)) (by decide)
    · intro k d hk
      rcases h.known k d hk with hext | hmem
      · exact .inl hext
      · refine .inr ?_
        rw [List.map_append]
        exact List.mem_append.mpr (.inl hmem)
    · exact h.external

/-- The id of an injected route is external, and only the id table and its counter change. -/
theorem external_id_for_route
    (h : ∀ k d, s.externalRouteIds.lookup k = some d → isExternalPublisherId d = true)
    (route : RouteKey) :
    isExternalPublisherId (s.externalPublisherIdForRoute route).1 = true ∧
      ∃ ids seq, (s.externalPublisherIdForRoute route).2 =
          { s with externalRouteIds := ids, externalRouteSeq := seq } ∧
        ∀ k d, ids.lookup k = some d → isExternalPublisherId d = true := by
  unfold Server.externalPublisherIdForRoute
  split
  · rename_i id hid
    exact ⟨h _ _ hid, _, _, rfl, h⟩
  · refine ⟨external_id_outside _, _, _, rfl, ?_⟩
    intro k d hk
    rcases (Maps.lookup_insert _ _ _ _ _).mp hk with ⟨_, rfl⟩ | ⟨_, hk⟩
    · exact external_id_outside _
    · exact h k d hk

/-- A claim for an inject changes the routes and the ids of injected routes only. -/
theorem claim_same {route : RouteKey} {id : Nat} {s' : Server}
    (hs : s.claimForInject route = .ok (id, s')) : ∃ routes ids seq, s' = { s with
      activePublishRoutes := routes, externalRouteIds := ids, externalRouteSeq := seq } := by
  have hid : ∃ ids seq, (s.externalPublisherIdForRoute route).2 =
      { s with externalRouteIds := ids, externalRouteSeq := seq } := by
    unfold Server.externalPublisherIdForRoute
    split <;> exact ⟨_, _, rfl⟩
  unfold Server.claimForInject at hs
  split at hs
  · split at hs
    · cases hs
      exact ⟨_, _, _, rfl⟩
    · cases hs
  · split at hs
    · cases hs
    · generalize s.externalPublisherIdForRoute route = r at hid hs
      obtain ⟨ids, seq, heq⟩ := hid
      obtain ⟨d, t⟩ := r
      cases heq
      cases hs
      exact ⟨_, _, _, rfl⟩

/-- An inject that may use its route runs under an external id. -/
theorem claim_for_inject_spec
    (h : ∀ k d, s.externalRouteIds.lookup k = some d → isExternalPublisherId d = true)
    {route : RouteKey} {id : Nat} {s' : Server} (hs : s.claimForInject route = .ok (id, s')) :
    isExternalPublisherId id = true ∧ ∃ routes ids seq,
      s' = { s with
        activePublishRoutes := routes, externalRouteIds := ids, externalRouteSeq := seq } ∧
      (∀ k d, routes.lookup k = some d →
        isExternalPublisherId d = true ∨ s.activePublishRoutes.lookup k = some d) ∧
      ∀ k d, ids.lookup k = some d → isExternalPublisherId d = true := by
  unfold Server.claimForInject at hs
  split at hs
  · split at hs
    · rename_i hid
      cases hs
      exact ⟨h _ _ hid, _, _, _, rfl, fun _ _ hk => .inr hk, h⟩
    · cases hs
  · split at hs
    · cases hs
    · obtain ⟨hext, ids, seq, heq, hids⟩ := external_id_for_route h route
      generalize s.externalPublisherIdForRoute route = r at hs hext heq
      obtain ⟨d, t⟩ := r
      cases heq
      cases hs
      refine ⟨hext, _, _, _, rfl, ?_, hids⟩
      intro k e hk
      rcases (Maps.lookup_insert _ _ _ _ _).mp hk with ⟨_, rfl⟩ | ⟨_, hk⟩
      · exact .inl hext
      · exact .inr hk

/-- A successful inject claims its route and queues one frame. -/
theorem inject_spec {codec : Codec} {now : Nat} {route : RouteKey} {frameType : FrameType}
    {timestamp : UInt32} {payload : List UInt8} {s' : Server}
    (hs : s.injectRelayFrame codec now route frameType timestamp payload = .ok s') :
    ∃ id t, s.claimForInject route = .ok (id, t) ∧ s' = { t with
      pendingInjectedRelay := t.pendingInjectedRelay ++ [⟨frameType, timestamp, payload,
        codec.normalize frameType payload, route.1, route.2, id⟩]
      injectRouteLastSeen := t.injectRouteLastSeen.insert route now } := by
  unfold Server.injectRelayFrame at hs
  dsimp only at hs
  split at hs
  · cases hs
  · split at hs
    · cases hs
    · split at hs
      · cases hs
      · split at hs
        · cases hs
        · split at hs
          · cases hs
          · rename_i id t ht
            cases hs
            exact ⟨id, t, ht, rfl⟩

theorem Tenancy.inject (h : Tenancy s) {codec : Codec} {now : Nat} {route : RouteKey}
    {frameType : FrameType} {timestamp : UInt32} {payload : List UInt8} {s' : Server}
    (hs : s.injectRelayFrame codec now route frameType timestamp payload = .ok s') :
    Tenancy s' := by
  obtain ⟨id, t, ht, rfl⟩ := inject_spec hs
  obtain ⟨_, routes, ids, seq, rfl, hroutes, hids⟩ := claim_for_inject_spec h.external ht
  have hgrown := h.grow hroutes
  exact ⟨hgrown.ids, hgrown.below, hgrown.range, hgrown.tenants, hgrown.known, hids⟩

theorem Tenancy.release (h : Tenancy s) (route : RouteKey) :
    Tenancy (s.releaseInjectedRoute route) := by
  unfold Server.releaseInjectedRoute
  dsimp only
  split
  · exact ⟨h.ids, h.below, h.range, h.tenants, h.known, h.external⟩
  · rename_i id _
    have hshrunk : Tenancy { s with
        activePublishRoutes :=
          if s.activePublishRoutes.lookup route = some id then s.activePublishRoutes.erase route
          else s.activePublishRoutes } :=
      h.shrink fun k d hk => by
        split at hk
        · exact ((Maps.lookup_erase _ _ _ _).mp hk).2
        · exact hk
    refine ⟨hshrunk.ids, hshrunk.below, hshrunk.range, hshrunk.tenants, hshrunk.known, ?_⟩
    exact fun k d hk => h.external k d ((Maps.lookup_erase _ _ _ _).mp hk).2

theorem release_every (connections : List Conn) (s : Server) :
    ∃ routes, connections.foldl (fun s c => s.releaseAllPublishRoutes c.connId) s =
        { s with activePublishRoutes := routes } ∧
      ∀ k d, routes.lookup k = some d ↔
        s.activePublishRoutes.lookup k = some d ∧ d ∉ connections.map Conn.connId := by
  induction connections generalizing s with
  | nil => exact ⟨_, rfl, fun k d => by simp⟩
  | cons c connections ih =>
    obtain ⟨routes, heq, hr⟩ := ih (s.releaseAllPublishRoutes c.connId)
    refine ⟨routes, heq, fun k d => ?_⟩
    rw [hr, Server.releaseAllPublishRoutes, release_all_lookup, List.map_cons, List.mem_cons,
      not_or, and_assoc]

theorem Tenancy.stop (h : Tenancy s) : Tenancy s.stop := by
  obtain ⟨routes, heq, hr⟩ := release_every s.connections s
  have hempty : Tenancy { s with activePublishRoutes := routes, connections := [] } := by
    refine ⟨List.nodup_nil, by simp, h.range, by simp, ?_, h.external⟩
    intro k d hk
    obtain ⟨hl, hd⟩ := (hr k d).mp hk
    rcases h.known k d hl with hext | hmem
    · exact .inl hext
    · exact absurd hmem hd
  have hreleased : ∀ (keys : List RouteKey) (t : Server), Tenancy t →
      Tenancy (keys.foldl Server.releaseInjectedRoute t) := by
    intro keys
    induction keys with
    | nil => exact fun _ ht => ht
    | cons k keys ih => exact fun t ht => ih _ (ht.release k)
  have hdone := hreleased
    ({ s with activePublishRoutes := routes, connections := [] } : Server).injectedRoutes _ hempty
  unfold Server.stop Server.releaseAllInjectedRoutes
  dsimp only
  rw [heq]
  exact ⟨hdone.ids, hdone.below, hdone.range, hdone.tenants, hdone.known, fun k d hk => by cases hk⟩

/-- The steps of the host and of the peers keep the claims. -/
theorem Tenancy.stir (h : Tenancy st.server)
    (hs : st.Stir cfg st') : Tenancy st'.server := by
  cases hs with
  | act i c act hc hd _ =>
    have ht := h.tenants c (List.mem_of_getElem? hc)
    obtain ⟨ht', hid, hothers⟩ := tenant_path (fun hj => hj) ht
      (perform_path cfg.codec act hd ht.seated ht.named)
    exact h.put hc ht' hid hothers
  | detach i c claimed hc hclaimed hl _ =>
    have ht := h.tenants c (List.mem_of_getElem? hc)
    exact h.put hc (detach_tenant ht hclaimed hl) (detach_kept c hclaimed).conn_id
      fun _ _ _ hk => hk
  | remove i c hc _ => exact h.remove hc
  | vacate connId => exact h.shrink fun k d hk => ((release_all_lookup _ _ _ _).mp hk).1
  | adjust i c c' hc hu =>
    exact h.keeps ⟨Rows.forall₂_set Kept.refl hc (kept_of_unseen hu), rfl, rfl, rfl⟩
  | accept now transport fd => exact h.accept now transport fd
  | inject now route frameType timestamp payload s hs _ => exact h.inject hs
  | release route _ => exact h.release route
  | forget route _ => exact ⟨h.ids, h.below, h.range, h.tenants, h.known, h.external⟩
  | tune settings => exact ⟨h.ids, h.below, h.range, h.tenants, h.known, h.external⟩
  | lead injectFirst => exact ⟨h.ids, h.below, h.range, h.tenants, h.known, h.external⟩

theorem Tenancy.move (h : Tenancy st.server)
    (hs : st.Move cfg st') : Tenancy st'.server := by
  rcases hs with hcalm | hstir
  · exact h.keeps (calm_keeps hcalm)
  · exact h.stir hstir

theorem Tenancy.step (h : Tenancy st.server)
    (hs : st.Step cfg st') : Tenancy st'.server := by
  rcases hs with hmove | hreset
  · exact h.move hmove
  · cases hreset with
    | ids => exact ⟨h.ids, h.below, h.range, h.tenants, h.known, fun k d hk => by cases hk⟩
    | stop _ => exact h.stop

theorem Tenancy.course (h : Tenancy st.server)
    (hs : Course cfg st st') : Tenancy st'.server := by
  induction hs with
  | refl => exact h
  | tail _ hstep ih => exact ih.step hstep

theorem Tenancy.stages (h : Tenancy st.server)
    (hs : Stages cfg st st') : Tenancy st'.server :=
  h.course (course_of_stages hs)

theorem tenancy_new (settings : ServerSettings) : Tenancy { settings } :=
  ⟨List.nodup_nil, by simp, by change 0 < 1 ∧ 1 ≤ externalPublisherIdBit; decide, by simp,
    (fun k d hk => by cases hk), fun k d hk => by cases hk⟩

theorem tenancy_run (cfg : CacheConfig) (settings : ServerSettings) (ops : List ServerOp) :
    Tenancy (Server.run cfg { settings } ops).1 := by
  have hstages := run_stages cfg { settings } [] ops
  generalize Server.run cfg { settings } ops = r at hstages
  exact (tenancy_new settings).course hstages

end Stirring

end LibRtmp.Proofs
