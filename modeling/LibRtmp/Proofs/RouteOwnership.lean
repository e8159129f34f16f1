import LibRtmp.Proofs.Tenancy

namespace LibRtmp.Proofs

open Relation (ReflTransGen)

variable {p : Pass}

def Repaired (closed : List Nat) (s : Server) : Prop :=
  ∀ i c, s.connections[i]? = some c → i ∉ closed → ∀ route, c.claimedPublishRoute = some route →
    s.activePublishRoutes.lookup (c.app, route) = some c.connId

section Closing

variable (cfg : CacheConfig)

theorem Repaired.keeps {s s' : Server} {closed closed' : List Nat} (h : Repaired closed s)
    (hk : Keeps s s') (hc : closed ⊆ closed') : Repaired closed' s' := by
  intro i c' hc' hi route hroute
  obtain ⟨c, hrow, hkept⟩ := Rows.forall₂_row_back hk.conns hc'
  rw [hkept.claimed] at hroute
  rw [hk.routes, hkept.app, hkept.conn_id]
  exact h i c hrow (fun hmem => hi (hc hmem)) route hroute

theorem Keeps.trans {s s' s'' : Server} (h : Keeps s s') (h' : Keeps s' s'') : Keeps s s'' := by
  refine ⟨Rows.forall₂_trans Kept.trans h.conns h'.conns, ?_, ?_, ?_⟩
  · rw [h'.routes, h.routes]
  · rw [h'.next, h.next]
  · rw [h'.ids, h.ids]

theorem calm_stages_keeps {cfg : CacheConfig} {st st' : Stage} (h : CalmStages cfg st st') :
    Keeps st.server st'.server := by
  induction h with
  | refl => exact ⟨Rows.forall₂_refl Kept.refl _, rfl, rfl, rfl⟩
  | tail _ hs ih => exact ih.trans (calm_keeps hs)

theorem replay_one_closed (codec : Codec) (p : Pass) (i : Nat) :
    p.closed ⊆ (Pass.replayOne codec p i).closed := by
  unfold Pass.replayOne
  split
  · exact fun _ ha => ha
  · dsimp only
    split
    · exact List.subset_append_left _ _
    · exact fun _ ha => ha

theorem offer_closed (limits : PlayerFlowLimits) (now : Nat) (delivery : FrameDelivery)
    (frameIndex : Nat) (frame : RelayFrame) (f : Fanout) (i : Nat) :
    f.closed ⊆ (f.offer limits now delivery frameIndex frame i).closed := by
  unfold Fanout.offer
  split
  · exact fun _ ha => ha
  · dsimp only
    split
    · exact List.subset_append_left _ _
    · exact fun _ ha => ha

theorem relaying_closed (settings : ServerSettings) (now : Nat) (abandoned : List Abandoned)
    (frames : List RelayFrame) (r : Relaying) :
    r.fanout.closed ⊆ (Relaying.run cfg settings now abandoned frames r).1.fanout.closed := by
  induction frames generalizing r with
  | nil => exact fun _ ha => ha
  | cons frame frames ih =>
    unfold Relaying.run
    dsimp only
    split
    · exact fun _ ha => ha
    · have hoffers := Rows.foldl_subset Fanout.closed
        (fun f i => offer_closed settings.limits now
          (if (relayPlayers cfg.codec r.fanout.connections frame).isEmpty ∨
              settings.limits.soft = 0 then FrameDelivery.always
            else frameDelivery cfg.codec (Server.cacheRelayFrameUnlessOrphaned cfg abandoned
              r.fanout.connections r.cache frame) frame) r.frameIndex frame f i)
        (relayPlayers cfg.codec r.fanout.connections frame) r.fanout
      exact fun _ ha => ih _ (hoffers ha)

theorem send_to_closed (m : StagedRelayMedia) (sockets : Nat → Socket)
    (s : List Conn × List Nat × List (Nat × List UInt8)) (i : Nat) :
    s.2.1 ⊆ (m.sendTo sockets s i).2.1 := by
  obtain ⟨connections, closed, taken⟩ := s
  unfold StagedRelayMedia.sendTo
  dsimp only
  split
  · exact fun _ ha => ha
  · split
    · exact fun _ ha => ha
    · split
      · exact fun _ ha => ha
      · exact List.subset_append_left _ _

theorem staged_closed (m : StagedRelayMedia) (sockets : Nat → Socket) (connections : List Conn)
    (closed : List Nat) : closed ⊆ (m.send sockets connections closed).2.1 :=
  Rows.foldl_subset (fun s : List Conn × List Nat × List (Nat × List UInt8) => s.2.1)
    (send_to_closed m sockets) m.messages.owners (connections, closed, [])

theorem send_closed (abandoned : List Abandoned) (input : PassInput) (frames : List RelayFrame)
    (p : Pass) : p.closed ⊆ (Pass.sendAndExportRelayFrames cfg input abandoned frames p).closed := by
  unfold Pass.sendAndExportRelayFrames
  dsimp only
  intro i hi
  exact staged_closed _ _ _ _ (relaying_closed _ _ _ _ _ _ hi)

theorem flush_one_closed (input : PassInput) (p : Pass) (i : Nat) :
    p.closed ⊆ (Pass.flushOne input p i).closed := by
  unfold Pass.flushOne
  split
  · exact fun _ ha => ha
  · dsimp only
    split
    · exact List.subset_append_left _ _
    · exact fun _ ha => ha

/-- A connection that closed stays closed until it is removed. -/
theorem relay_phase_closed (input : PassInput) (first : List Abandoned) (p : Pass) :
    p.closed ⊆ (Pass.relayPhase cfg input first p).closed := by
  unfold Pass.relayPhase
  dsimp only
  intro i hi
  refine Rows.foldl_subset Pass.closed (flush_one_closed input) _ _ (send_closed _ _ _ _ _ ?_)
  exact Rows.foldl_subset Pass.closed (replay_one_closed cfg.codec) _ _ hi

end Closing

section Detaching

variable (codec : Codec) (cfg : CacheConfig)

/-- One turn of the detach loop leaves the claims of all others, and repairs this one. -/
theorem detach_one_repairs (closedIds : List Nat) (i : Nat) (ht : Tenancy p.server) :
    (Pass.detachOne codec closedIds p i).server.activePublishRoutes =
        p.server.activePublishRoutes ∧
      (Pass.detachOne codec closedIds p i).closed = p.closed ∧
      (∀ j, j ≠ i → (Pass.detachOne codec closedIds p i).server.connections[j]? =
        p.server.connections[j]?) ∧
      ∀ c, (Pass.detachOne codec closedIds p i).server.connections[i]? = some c →
        c.connId ∉ closedIds → ∀ route, c.claimedPublishRoute = some route →
          p.server.activePublishRoutes.lookup (c.app, route) = some c.connId := by
  unfold Pass.detachOne
  split
  · rename_i hnone
    refine ⟨rfl, rfl, fun _ _ => rfl, fun c hc => ?_⟩
    rw [hnone] at hc
    cases hc
  · rename_i c hc
    split
    · rename_i hkeep
      refine ⟨rfl, rfl, fun _ _ => rfl, ?_⟩
      intro d hd hopen route hroute
      rw [hc] at hd
      cases hd
      have hshared : c.publishRoutes = true := (ht.tenants c (List.mem_of_getElem? hc)).shared
      simpa [hopen, hshared, hroute] using hkeep
    · rename_i hlost
      rw [not_or, not_or] at hlost
      have hlt : i < p.server.connections.length := (List.getElem?_eq_some_iff.mp hc).1
      refine ⟨rfl, rfl, fun j hj => List.getElem?_set_ne (Ne.symm hj), ?_⟩
      intro d hd _ route hroute
      have hself : (p.server.connections.set i c.detachLostPublishRoute)[i]? =
        some c.detachLostPublishRoute := List.getElem?_set_self hlt
      have hsame : c.detachLostPublishRoute = d := Option.some.inj (hself.symm.trans hd)
      cases hclaimed : c.claimedPublishRoute with
      | none => simp [hclaimed] at hlost
      | some claimed =>
        have hnone := (detach_kept c hclaimed).claimed
        rw [hsame, hroute] at hnone
        cases hnone

theorem detach_ids {closedIds : List Nat} {i : Nat} :
    (Pass.detachOne codec closedIds p i).server.connections.map Conn.connId =
      p.server.connections.map Conn.connId := by
  unfold Pass.detachOne
  split
  · rfl
  · rename_i c hc
    split
    · rfl
    · rename_i hlost
      cases hclaimed : c.claimedPublishRoute with
      | none => simp [hclaimed] at hlost
      | some claimed => exact conn_ids_set hc (detach_kept c hclaimed).conn_id

structure Detached (closedIds : List Nat) (p q : Pass) (n : Nat) : Prop where
  tenancy : Tenancy q.server
  ids : q.server.connections.map Conn.connId = p.server.connections.map Conn.connId
  closed : q.closed = p.closed
  repaired : ∀ i < n, ∀ c, q.server.connections[i]? = some c → c.connId ∉ closedIds →
    ∀ route, c.claimedPublishRoute = some route →
      q.server.activePublishRoutes.lookup (c.app, route) = some c.connId

theorem detach_loop (ht : Tenancy p.server) (closedIds : List Nat) (n : Nat) :
    Detached closedIds p ((List.range n).foldl (Pass.detachOne cfg.codec closedIds) p) n := by
  induction n with
  | zero => exact ⟨ht, rfl, rfl, fun i hi => absurd hi (Nat.not_lt_zero i)⟩
  | succ n ih =>
    rw [List.range_succ, List.foldl_append, List.foldl_cons, List.foldl_nil]
    generalize (List.range n).foldl (Pass.detachOne cfg.codec closedIds) p = q at ih
    obtain ⟨hroutes, hclosed, hothers, hrepaired⟩ :=
      detach_one_repairs cfg.codec closedIds n ih.tenancy
    refine ⟨?_, (detach_ids cfg.codec).trans ih.ids, hclosed.trans ih.closed, ?_⟩
    · exact ih.tenancy.stages (detach_one_stages cfg [] closedIds q n)
    · intro i hi c hc hopen route hroute
      rw [hroutes]
      by_cases hin : i = n
      · subst hin
        exact hrepaired c hc hopen route hroute
      · rw [hothers i hin] at hc
        exact ih.repaired i (by omega) c hc hopen route hroute

/-- After the detach loop every connection that did not close owns what it believes to own. -/
theorem detach_repairs (ht : Tenancy p.server) :
    Repaired (Pass.detachDisplacedRouteOwners cfg.codec p).closed
      (Pass.detachDisplacedRouteOwners cfg.codec p).server := by
  unfold Pass.detachDisplacedRouteOwners
  dsimp only
  generalize hids : p.closed.filterMap (fun i => p.server.connections[i]?.map Conn.connId) = closedIds
  have hloop := detach_loop cfg ht closedIds p.server.connections.length
  generalize (List.range p.server.connections.length).foldl (Pass.detachOne cfg.codec closedIds) p =
    q at hloop
  have hlength : q.server.connections.length = p.server.connections.length := by
    simpa using congrArg List.length hloop.ids
  intro i c hc hopen route hroute
  have hlt : i < p.server.connections.length :=
    hlength ▸ (List.getElem?_eq_some_iff.mp hc).1
  refine hloop.repaired i hlt c hc ?_ route hroute
  -- A closed id is the id of a closed index, and ids are distinct.
  intro hmem
  rw [← hids] at hmem
  obtain ⟨j, hj, hjc⟩ := List.mem_filterMap.mp hmem
  have hrows : (q.server.connections.map Conn.connId)[j]? = some c.connId := by
    rw [hloop.ids, List.getElem?_map, hjc]
  rw [List.getElem?_map] at hrows
  obtain ⟨d, hd, hid⟩ := Option.map_eq_some_iff.mp hrows
  have hij := ids_apart hloop.tenancy.ids hc hd hid.symm
  rw [hij, hloop.closed] at hopen
  exact hopen hj

end Detaching

section Removing

/-- Removing the last of the excepted connections. -/
theorem remove_repaired {j : Nat} {js : List Nat} (ht : Tenancy p.server)
    (h : Repaired (j :: js) p.server) (hlast : ∀ k ∈ js, k < j) :
    Repaired js (Pass.removeOne p j).server := by
  cases hj : p.server.connections[j]? with
  | none =>
    have hstay : Pass.removeOne p j = p := by
      unfold Pass.removeOne
      rw [hj]
    rw [hstay]
    intro i c hc hi
    refine h i c hc fun hmem => ?_
    rcases List.mem_cons.mp hmem with rfl | hmem
    · rw [hj] at hc
      cases hc
    · exact hi hmem
  | some gone =>
    obtain ⟨orphaned, heq⟩ := remove_server hj
    have hserver : (Pass.removeOne p j).server =
        (Pass.removeOne { server := p.server } j).server := by
      unfold Pass.removeOne
      rw [hj]
    rw [hserver, heq]
    intro i c hc hi route hroute
    have hback : ∃ k, p.server.connections[k]? = some c ∧ k ≠ j ∧ k ∉ js := by
      dsimp only at hc
      rw [List.getElem?_eraseIdx] at hc
      split at hc
      · exact ⟨i, hc, by omega, hi⟩
      · refine ⟨i + 1, hc, by omega, fun hmem => ?_⟩
        have := hlast _ hmem
        omega
    obtain ⟨k, hk, hkj, hkjs⟩ := hback
    have howns := h k c hk (by simp [hkj, hkjs]) route hroute
    refine (release_all_lookup _ _ _ _).mpr ⟨howns, fun hid => ?_⟩
    exact hkj (ids_apart ht.ids hk hj hid)

theorem remove_all_repaired (cfg : CacheConfig) (js : List Nat) (hjs : js.Pairwise (· > ·)) {p : Pass}
    (ht : Tenancy p.server) (h : Repaired js p.server) :
    Repaired [] (js.foldl Pass.removeOne p).server := by
  induction js generalizing p with
  | nil => exact h
  | cons j js ih =>
    have hrest : Repaired js (Pass.removeOne p j).server :=
      remove_repaired ht h fun k hk => List.rel_of_pairwise_cons hjs hk
    exact ih hjs.of_cons (ht.stages (remove_one_stages cfg [] p j)) hrest

theorem remove_closed_repaired (cfg : CacheConfig) {p : Pass} (ht : Tenancy p.server)
    (h : Repaired p.closed p.server) : Repaired [] p.removeClosedConnections.server := by
  unfold Pass.removeClosedConnections
  refine remove_all_repaired cfg _ ?_ ht ?_
  · rw [List.pairwise_reverse]
    exact List.pairwise_lt_range.filter _
  · intro i c hc hi
    refine h i c hc fun hmem => hi ?_
    have hlt := (List.getElem?_eq_some_iff.mp hc).1
    simp [hlt, hmem]

end Removing

section Passing

variable (cfg : CacheConfig) (input : PassInput) {s : Server}

theorem receive_phase_repaired (ht : Tenancy s) :
    Repaired (Pass.receivePhase cfg input s).2.closed (Pass.receivePhase cfg input s).2.server := by
  have hreceive := ht.stages (reap_and_receive_stages cfg input s [])
  unfold Pass.receivePhase
  dsimp only
  generalize Pass.reapAndReceive cfg input s = p at hreceive
  exact detach_repairs cfg (hreceive.stages (stages_of_calm (drain_stages cfg [] p)))

/-- What a pass breaks it repairs before it ends. -/
theorem pass_repaired (ht : Tenancy s) :
    Repaired [] (processConnections cfg input s).server := by
  obtain ⟨hpath, hnoted⟩ := receive_phase_stages cfg input s []
  have hreceived := ht.stages hpath
  have hrepaired := receive_phase_repaired cfg input ht
  unfold processConnections
  generalize Pass.receivePhase cfg input s = r at hnoted hreceived hrepaired
  obtain ⟨first, p⟩ := r
  have hkeeps := calm_stages_keeps (relay_phase_stages cfg input first p [] hnoted)
  have hclosed := relay_phase_closed cfg input first p
  dsimp only
  generalize Pass.relayPhase cfg input first p = q at hkeeps hclosed
  exact remove_closed_repaired cfg (hreceived.keeps hkeeps) (hrepaired.keeps hkeeps hclosed)

/-- New connections claim nothing. -/
theorem accept_repaired (h : Repaired [] s) (accepted : List (Nat × Transport × Nat)) :
    Repaired [] (s.acceptNewConnections accepted) := by
  induction accepted generalizing s with
  | nil => exact h
  | cons a accepted ih =>
    refine ih ?_
    unfold Server.addConnection
    dsimp only
    split
    · exact h
    · intro i c hi hopen route hroute
      dsimp only at hi ⊢
      rw [List.getElem?_append] at hi
      split at hi
      · exact h i c hi hopen route hroute
      · rw [List.mem_singleton.mp (List.mem_of_getElem? hi)] at hroute
        cases hroute

theorem poll_repaired (input : PollInput) (ht : Tenancy s) :
    Repaired [] (s.pollImpl cfg input).1 := by
  have hfirst := pass_stages cfg { input.first with relaySends := 0 } s []
  have hrepaired := pass_repaired cfg { input.first with relaySends := 0 } ht
  unfold Server.pollImpl
  dsimp only
  generalize processConnections cfg { input.first with relaySends := 0 } s = p at hfirst hrepaired
  have haccepted := ht.stages (hfirst.trans (accept_stages cfg input.accepted p.server _))
  have hnew := accept_repaired hrepaired input.accepted
  generalize p.server.acceptNewConnections input.accepted = t at haccepted hnew
  split
  · have hstir : Stage.Stir cfg ⟨t, [], [] ++ p.trace⟩ _ := .lead s.relayInterleaveInjectFirst
    have hlead := haccepted.stages (.single (.inr hstir))
    generalize { input.second with
      relaySends := relaySendsAfter cfg { input.first with relaySends := 0 } s } = second
    have hsecond := pass_repaired cfg second hlead
    dsimp only at hsecond ⊢
    exact hsecond
  · exact hnew

end Passing

structure RoutesExact (s : Server) : Prop where
  owner : ∀ connId app route,
    (s.activePublishRoutes.lookup (app, route) = some connId ∧
        isExternalPublisherId connId = false) ↔
      ∃ c ∈ s.connections, c.connId = connId ∧ c.app = app ∧ c.claimedPublishRoute = some route
  single : ∀ connId k k', isExternalPublisherId connId = false →
    s.activePublishRoutes.lookup k = some connId →
    s.activePublishRoutes.lookup k' = some connId → k = k'
  agreed : ∀ c ∈ s.connections, ∀ d ∈ s.connections, ∀ route,
    c.claimedPublishRoute = some route → d.claimedPublishRoute = some route → c.app = d.app → c = d

/-- Once all are repaired, owning and believing to own agree. -/
theorem Tenancy.exact {s : Server} (ht : Tenancy s) (h : Repaired [] s) : RoutesExact s := by
  have howner : ∀ connId k, s.activePublishRoutes.lookup k = some connId →
      isExternalPublisherId connId = false →
      ∃ c ∈ s.connections, c.connId = connId ∧ c.app = k.1 ∧ c.claimedPublishRoute = some k.2 := by
    intro connId k hk hsocket
    rcases ht.known k connId hk with hext | hmem
    · rw [hsocket] at hext
      cases hext
    · obtain ⟨c, hc, rfl⟩ := List.mem_map.mp hmem
      obtain ⟨happ, hclaimed⟩ := (ht.tenants c hc).own k.1 k.2 hk
      exact ⟨c, hc, rfl, happ.symm, hclaimed⟩
  have howns : ∀ c ∈ s.connections, ∀ route, c.claimedPublishRoute = some route →
      s.activePublishRoutes.lookup (c.app, route) = some c.connId := by
    intro c hc route hroute
    obtain ⟨i, hi⟩ := List.mem_iff_getElem?.mp hc
    exact h i c hi (by simp) route hroute
  have hsame : ∀ c ∈ s.connections, ∀ d ∈ s.connections, c.connId = d.connId → c = d :=
    fun c hc d hd => List.inj_on_of_nodup_map ht.ids hc hd
  constructor
  · intro connId app route
    constructor
    · rintro ⟨hk, hsocket⟩
      exact howner connId (app, route) hk hsocket
    · rintro ⟨c, hc, rfl, rfl, hroute⟩
      exact ⟨howns c hc route hroute, ht.socket hc⟩
  · intro connId k k' hsocket hk hk'
    obtain ⟨c, hc, hid, happ, hroute⟩ := howner connId k hk hsocket
    obtain ⟨d, hd, hid', happ', hroute'⟩ := howner connId k' hk' hsocket
    obtain rfl := hsame c hc d hd (hid.trans hid'.symm)
    refine Prod.ext (happ.symm.trans happ') (Option.some.inj (hroute.symm.trans hroute'))
  · intro c hc d hd route hroute hroute' happ
    have hlc := howns c hc route hroute
    rw [happ, howns d hd route hroute'] at hlc
    exact hsame c hc d hd (Option.some.inj hlc).symm

/-- After every pass of every run, and after every poll with its second pass, a route belongs to a
connection exactly when that connection believes so. -/
theorem routes_exact_after_pass (cfg : CacheConfig) (settings : ServerSettings)
    (ops : List ServerOp) (input : PassInput) (poll : PollInput) :
    RoutesExact (processConnections cfg input (Server.run cfg { settings } ops).1).server ∧
    RoutesExact ((Server.run cfg { settings } ops).1.pollImpl cfg poll).1 := by
  have ht := tenancy_run cfg settings ops
  generalize (Server.run cfg { settings } ops).1 = s at ht
  constructor
  · have hpass := pass_stages cfg input s []
    have hrepaired := pass_repaired cfg input ht
    generalize processConnections cfg input s = p at hpass hrepaired
    exact (ht.stages hpass).exact hrepaired
  · have hpath := poll_stages cfg poll s []
    have hrepaired := poll_repaired cfg poll ht
    generalize s.pollImpl cfg poll = r at hpath hrepaired
    exact (ht.stages hpath).exact hrepaired

end LibRtmp.Proofs
