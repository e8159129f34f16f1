import LibRtmp.Lib.History
import LibRtmp.Proofs.Provenance

namespace LibRtmp.Proofs

open History

/-- After this the connection has an eviction of the route waiting. -/
def GivesUp (p : Nat) (k : RouteKey) : ServerEvent → Prop
  | .turn _ _ after => after.connId = p ∧ k ∈ after.pendingCacheEvictions
  | _ => False

def Renews (p : Nat) (k : RouteKey) (e : ServerEvent) : Prop :=
  ∃ f ∈ e.accepted, f.publisherConnId = p ∧ f.route = k

/-- The connection gave the route up and has queued nothing on it since. Latest event first. -/
def GivenUp (p : Nat) (k : RouteKey) (h : List ServerEvent) : Prop :=
  Since (fun e _ => GivesUp p k e) (fun e => ¬ Renews p k e) h

section Rows

variable {c : Conn} {k : RouteKey}

theorem note_all_barred {keys : List RouteKey} (h : Barred c k ∨ k ∈ keys) :
    Barred (keys.foldl Conn.noteAbandonedRelayRoute c) k := by
  induction keys generalizing c with
  | nil => exact h.resolve_right (by simp)
  | cons key keys ih =>
    refine ih ?_
    rcases h with h | h
    · exact .inl (note_abandoned_barred c key h)
    · rcases List.mem_cons.mp h with rfl | h
      · exact .inl (.inr (.inl (note_abandoned_marks c k)))
      · exact .inr h

/-- A drain turns evictions into markers. -/
theorem drain_barred (h : Barred c k) :
    Barred ((c.pendingCacheEvictions ++ c.abandonedRelayRoutes).foldl Conn.noteAbandonedRelayRoute
      { c with pendingCacheEvictions := [] }) k := by
  refine note_all_barred ?_
  rcases h with h | h | h
  · exact .inr (List.mem_append_left _ h)
  · exact .inr (List.mem_append_right _ h)
  · exact .inl (.inr (.inr h))

theorem barred_sublist {d : Conn} (h : Barred c k) (hs : d.pendingRelay ⊆ c.pendingRelay)
    (he : d.pendingCacheEvictions = c.pendingCacheEvictions)
    (ha : d.abandonedRelayRoutes = c.abandonedRelayRoutes) : Barred d k := by
  rcases h with h | h | h
  · exact .inl (he ▸ h)
  · exact .inr (.inl (ha ▸ h))
  · exact .inr (.inr fun f hf => h f (hs hf))

end Rows

structure Shut (p : Nat) (k : RouteKey) (st : Stage) : Prop where
  known : p < st.server.nextConnId
  rows : ∀ c ∈ st.server.connections, c.connId = p → Barred c k ∧
    ((∃ f ∈ st.batch, f.publisherConnId = p ∧ f.route = k) → k ∈ c.abandonedRelayRoutes)

section Steps

variable {cfg : CacheConfig} {st st' : Stage} {p : Nat} {k : RouteKey}

/-- A step after which each row of the connection is as shut as it was. -/
theorem Shut.keep (h : Shut p k st) (hn : st.server.nextConnId ≤ st'.server.nextConnId)
    (hb : st'.batch ⊆ st.batch)
    (hc : ∀ d ∈ st'.server.connections, d.connId = p → ∃ c ∈ st.server.connections,
      c.connId = p ∧ (Barred c k → Barred d k) ∧
        (st'.batch ≠ [] → k ∈ c.abandonedRelayRoutes → k ∈ d.abandonedRelayRoutes)) :
    Shut p k st' := by
  refine ⟨Nat.lt_of_lt_of_le h.known hn, fun d hd hid => ?_⟩
  obtain ⟨c, hmem, hcid, hbarred, hmark⟩ := hc d hd hid
  obtain ⟨hb', hm'⟩ := h.rows c hmem hcid
  refine ⟨hbarred hb', fun ⟨f, hf, hof⟩ => ?_⟩
  exact hmark (List.ne_nil_of_mem hf) (hm' ⟨f, hb hf, hof⟩)

theorem Shut.same (h : Shut p k st)
    (hc : List.Forall₂ SameQueue st.server.connections st'.server.connections)
    (hn : st'.server.nextConnId = st.server.nextConnId) (hb : st'.batch ⊆ st.batch) :
    Shut p k st' := by
  refine h.keep (Nat.le_of_eq hn.symm) hb fun d hd hid => ?_
  obtain ⟨c, hmem, hcid, hrelay, hev, hab⟩ := Rows.forall₂_mem_back hc hd
  refine ⟨c, hmem, hcid ▸ hid, fun hbar => ?_, fun _ hk => hab ▸ hk⟩
  exact barred_sublist hbar (hrelay ▸ List.Subset.refl _) hev hab

/-- A step between passes that changes one row. -/
theorem Shut.set (h : Shut p k st) {i : Nat} {c d : Conn} {routes : Routes}
    {past : List ServerEvent} (hc : st.server.connections[i]? = some c) (hb : st.batch = [])
    (hid : d.connId = c.connId) (hbar : c.connId = p → Barred c k → Barred d k) :
    Shut p k { st with server := st.server.put i ⟨d, routes⟩, past } := by
  refine h.keep (Nat.le_refl _) (List.Subset.refl _) fun e he heid => ?_
  have hnone : ∀ {q : Prop}, st.batch ≠ [] → q := fun hne => absurd hb hne
  rcases List.mem_or_eq_of_mem_set he with hmem | rfl
  · exact ⟨e, hmem, heid, id, fun hne => hnone hne⟩
  · exact ⟨c, List.mem_of_getElem? hc, hid ▸ heid, hbar (hid ▸ heid), fun hne => hnone hne⟩

/-- The connection that has just given the route up. -/
theorem Traced.shuts (ht : Traced st) {i : Nat} {c d : Conn} {routes : Routes}
    {past : List ServerEvent} (hc : st.server.connections[i]? = some c) (hb : st.batch = [])
    (hid : d.connId = c.connId) (hp : d.connId = p) (hk : k ∈ d.pendingCacheEvictions) :
    Shut p k { st with server := st.server.put i ⟨d, routes⟩, past } := by
  have hmem := List.mem_of_getElem? hc
  refine ⟨?_, fun e he heid => ?_⟩
  · rw [← hp, hid]
    exact (ht.tenancy.below c hmem).2
  · obtain ⟨j, hj⟩ := List.mem_iff_getElem?.mp he
    have hids : ((st.server.connections.set i d).map Conn.connId).Nodup :=
      (conn_ids_set hc hid).symm ▸ ht.tenancy.ids
    have hi : (st.server.connections.set i d)[i]? = some d :=
      List.getElem?_set_self (List.getElem?_eq_some_iff.mp hc).1
    have hij := ids_apart hids hi hj (hp.trans heid.symm)
    subst hij
    cases hi.symm.trans hj
    exact ⟨.inl hk, by simp [hb]⟩

theorem Shut.drain (h : Shut p k st) (i : Nat) (hb : st.batch = []) {past : List ServerEvent} :
    Shut p k { st with server := (Server.drainOne ([], st.server) i).2, past } := by
  unfold Server.drainOne
  cases hc : st.server.connections[i]? with
  | none => exact h.same (Rows.forall₂_refl SameQueue.refl _) rfl (List.Subset.refl _)
  | some c =>
    have hrow := (note_all_drops (c.pendingCacheEvictions ++ c.abandonedRelayRoutes)
      { c with pendingCacheEvictions := [] }).own_row
    have hset : Shut p k { st with server := st.server.put i ⟨_, st.server.activePublishRoutes⟩ } :=
      h.set hc hb hrow.1 fun _ hbar => drain_barred hbar
    exact ⟨hset.known, hset.rows⟩

theorem Shut.trim (h : Shut p k st) (abandoned : List Abandoned) (hb : st.batch = []) :
    Shut p k { st with server := st.server.dropStalePendingRelay abandoned } := by
  refine h.keep (Nat.le_refl _) (List.Subset.refl _) fun d hd hid => ?_
  obtain ⟨c, hc, rfl⟩ := List.mem_map.mp hd
  refine ⟨c, hc, ?_, fun hbar => ?_, fun hne => absurd hb hne⟩
  · split at hid <;> exact hid
  · split
    · exact barred_sublist hbar (List.filter_subset_self _) rfl rfl
    · exact hbar

/-- All evictions were drained before a batch is taken, so a frame in it is marked. -/
theorem Shut.take (h : Shut p k st) (ht : Traced st)
    (he : ∀ c ∈ st.server.connections, c.pendingCacheEvictions = []) :
    Shut p k { st with
      server := st.server.buildRelayFrameBatch.2, batch := st.server.buildRelayFrameBatch.1 } := by
  refine ⟨h.known, fun d hd hid => ?_⟩
  obtain ⟨c, hc, rfl⟩ := List.mem_map.mp hd
  have hcid : c.connId = p := by split at hid <;> exact hid
  have hbar := (h.rows c hc hcid).1
  have hmark : (∃ f ∈ st.server.buildRelayFrameBatch.1, f.publisherConnId = p ∧ f.route = k) →
      k ∈ c.abandonedRelayRoutes := by
    rintro ⟨f, hf, hfp, hfk⟩
    rcases hbar with hev | hmark | hnone
    · rw [he c hc] at hev
      cases hev
    · exact hmark
    · exfalso
      rcases mem_queued.mp (mem_batch.mp hf) with horphan | ⟨e, hmem, hfe⟩ | hinjected
      · exact (ht.orphans f horphan).2 (List.mem_map.mpr ⟨c, hc, hcid.trans hfp.symm⟩)
      · obtain ⟨i, hi⟩ := List.mem_iff_getElem?.mp hc
        obtain ⟨j, hj⟩ := List.mem_iff_getElem?.mp hmem
        have hij := ids_apart ht.tenancy.ids hi hj
          (hcid.trans (hfp.symm.trans (ht.mine e hmem f hfe)))
        subst hij
        cases hi.symm.trans hj
        exact hnone f hfe hfk
      · have hext := ht.injected f hinjected
        rw [hfp, ← hcid, ht.tenancy.socket hc] at hext
        cases hext
  split
  · exact ⟨barred_sublist hbar (List.nil_subset _) rfl rfl, hmark⟩
  · exact ⟨hbar, hmark⟩

/-- A frame that goes back opens nothing. -/
theorem Shut.requeue (h : Shut p k st) {frame : RelayFrame} {rest : List RelayFrame}
    (hb : st.batch = frame :: rest) :
    Shut p k { st with server := st.server.requeueRelayFrame frame, batch := rest } := by
  have hrest : rest ⊆ st.batch := hb ▸ List.subset_cons_self frame rest
  unfold Server.requeueRelayFrame
  split
  · exact h.same (Rows.forall₂_refl SameQueue.refl _) rfl hrest
  · split
    · rename_i i hi
      obtain ⟨c, hc, hid⟩ := index_of_row hi
      rw [List.modify_eq_set_getElem?, hc]
      refine h.keep (Nat.le_refl _) hrest fun d hd hdid => ?_
      rcases List.mem_or_eq_of_mem_set hd with hmem | rfl
      · exact ⟨d, hmem, hdid, id, fun _ hk => hk⟩
      · refine ⟨c, List.mem_of_getElem? hc, hdid, fun hbar => ?_, fun _ hk => hk⟩
        by_cases hk : frame.route = k
        · refine .inr (.inl ((h.rows c (List.mem_of_getElem? hc) hdid).2 ?_))
          exact ⟨frame, hb ▸ List.mem_cons_self, hid.symm.trans hdid, hk⟩
        · rcases hbar with hbar | hbar | hbar
          · exact .inl hbar
          · exact .inr (.inl hbar)
          · refine .inr (.inr fun f hf => ?_)
            rcases List.mem_append.mp hf with hf | hf
            · exact hbar f hf
            · rw [List.mem_singleton.mp hf]
              exact hk
    · obtain ⟨orphaned, hsame⟩ := push_orphan_same st.server frame
      rw [hsame]
      exact h.same (Rows.forall₂_refl SameQueue.refl _) rfl hrest

theorem Shut.accept (h : Shut p k st) (now : Nat) (transport : Transport) (fd : Nat) :
    Shut p k { st with server := st.server.addConnection now transport fd } := by
  unfold Server.addConnection
  split
  · exact h
  · refine h.keep (Nat.le_succ _) (List.Subset.refl _) fun d hd hid => ?_
    rcases List.mem_append.mp hd with hmem | hnew
    · exact ⟨d, hmem, hid, id, fun _ hk => hk⟩
    · cases List.mem_singleton.mp hnew
      exact absurd hid (Nat.ne_of_gt h.known)

theorem Shut.remove (h : Shut p k st) {i : Nat} {c : Conn} {past : List ServerEvent}
    (hc : st.server.connections[i]? = some c) :
    Shut p k { st with server := (Pass.removeOne { server := st.server } i).server, past } := by
  obtain ⟨orphaned, heq⟩ := remove_server hc
  rw [heq]
  refine h.keep (Nat.le_refl _) (List.Subset.refl _) fun d hd hid => ?_
  exact ⟨d, (List.eraseIdx_sublist _ _).subset hd, hid, id, fun _ hk => hk⟩

/-- A frame on a route that is shut does not touch the cache. -/
theorem Shut.handle (h : Shut p k st) (ht : Traced st) {frame : RelayFrame}
    {abandoned : List Abandoned} (hb : frame ∈ st.batch) (hp : frame.publisherConnId = p)
    (hk : frame.route = k) :
    Server.cacheRelayFrameUnlessOrphaned cfg abandoned st.server.connections st.server.cache frame =
      st.server.cache := by
  have hrefused : Server.cacheable abandoned st.server.connections frame = false := by
    unfold Server.cacheable
    rw [Bool.and_eq_false_iff]
    right
    split
    · rename_i c hfind
      have hid : c.connId = frame.publisherConnId := by simpa using List.find?_some hfind
      have hmark := (h.rows c (List.mem_of_find?_eq_some hfind) (hid.trans hp)).2
        ⟨frame, hb, hp, hk⟩
      simpa [Conn.relayRouteAbandoned, hk] using hmark
    · rw [hp]
      exact socket_id_inside (Nat.lt_of_lt_of_le h.known ht.tenancy.range.2)
  unfold Server.cacheRelayFrameUnlessOrphaned
  rw [if_neg (by simp [hrefused])]

def Inert (e : ServerEvent) (h : List ServerEvent) : Prop :=
  match e with
  | .handled f before after => GivenUp f.publisherConnId f.route h → after = before
  | _ => True

/-- In every state so far: what was given up is shut, and its frames did nothing. -/
structure Settled (st : Stage) : Prop where
  traced : Traced st
  shut : ∀ p k, GivenUp p k st.past.reverse → Shut p k st
  inert : Always Inert st.past.reverse

def Apart : ServerEvent → Prop
  | .turn _ _ _ => False
  | _ => True

theorem given_up_apart {events : List ServerEvent} (he : ∀ e ∈ events, Apart e)
    (h : GivenUp p k (st.past ++ events).reverse) : GivenUp p k st.past.reverse := by
  rw [List.reverse_append] at h
  refine (h.back fun e hmem _ hgives => ?_).2
  have hapart := he e (List.mem_reverse.mp hmem)
  cases e with
  | turn _ _ _ => exact hapart
  | _ => exact hgives

def Plain : ServerEvent → Prop
  | .turn _ _ _ => False
  | .handled _ _ _ => False
  | _ => True

/-- A step with such events, if it leaves every shut route shut. -/
theorem Settled.plain (h : Settled st) (ht : Traced st') {events : List ServerEvent}
    (hp : st'.past = st.past ++ events) (he : ∀ e ∈ events, Plain e)
    (hs : ∀ p k, Shut p k st → Shut p k st') : Settled st' := by
  refine ⟨ht, fun p k hgiven => hs p k (h.shut p k ?_), ?_⟩
  · refine given_up_apart (fun e hmem => ?_) (hp ▸ hgiven)
    have := he e hmem
    cases e <;> first | exact this | trivial
  · rw [hp, List.reverse_append]
    refine h.inert.append fun e hmem past => ?_
    have := he e (List.mem_reverse.mp hmem)
    cases e <;> first | exact this.elim | trivial

theorem Settled.turn (h : Settled st) {i : Nat} {c d : Conn} {act : ConnAct} {routes : Routes}
    (hc : st.server.connections[i]? = some c) (hb : st.batch = []) (hid : d.connId = c.connId)
    (ht : Traced { st with
      server := st.server.put i ⟨d, routes⟩, past := st.past ++ [.turn c act d] })
    (hbar : ∀ k, ¬ Renews c.connId k (.turn c act d) → Barred c k → Barred d k) :
    Settled { st with
      server := st.server.put i ⟨d, routes⟩, past := st.past ++ [.turn c act d] } := by
  refine ⟨ht, fun p k hgiven => ?_, ?_⟩
  · rw [List.reverse_append] at hgiven
    rcases since_cons.mp hgiven with ⟨hp, hk⟩ | ⟨hstale, hgiven⟩
    · exact h.traced.shuts hc hb hid hp hk
    · refine (h.shut p k hgiven).set hc hb hid fun hp => hbar k ?_
      rw [hp]
      exact hstale
  · rw [List.reverse_append]
    exact ⟨trivial, h.inert⟩

/-- A frame on a route given up leaves the cache as it is. -/
theorem Settled.handle (h : Settled st) {frame : RelayFrame} {rest : List RelayFrame}
    {abandoned : List Abandoned} {connections : List Conn} {cache : CacheTable}
    {events : List ServerEvent} (hb : st.batch = frame :: rest)
    (ho : Offers cfg.codec frame st.server.connections connections events)
    (hc : cache = Server.cacheRelayFrameUnlessOrphaned cfg abandoned st.server.connections
      st.server.cache frame)
    (ht : Traced
      { server := { st.server with connections, cache }
        batch := rest
        past := st.past ++ .handled frame st.server.cache cache :: events }) :
    Settled
      { server := { st.server with connections, cache }
        batch := rest
        past := st.past ++ .handled frame st.server.cache cache :: events } := by
  have hmem : frame ∈ st.batch := hb ▸ List.mem_cons_self
  have hrows : List.Forall₂ SameQueue st.server.connections connections :=
    ho.aside.imp fun _ _ ha => same_queue_unseen ha.unseen
  have hplain : ∀ e ∈ events, Plain e := by
    intro e he
    obtain ⟨_, _, rfl, _⟩ := ho.offered e he
    trivial
  refine ⟨ht, fun p k hgiven => ?_, ?_⟩
  · refine (h.shut p k (given_up_apart (fun e he => ?_) hgiven)).same hrows rfl
      (hb ▸ List.subset_cons_self frame rest)
    rcases List.mem_cons.mp he with rfl | he
    · trivial
    · have := hplain e he
      cases e <;> first | exact this | trivial
  · rw [List.reverse_append, List.reverse_cons, List.append_assoc]
    refine Always.append ⟨fun hgiven => ?_, h.inert⟩ fun e he past => ?_
    · rw [hc]
      exact (h.shut _ _ hgiven).handle h.traced hmem rfl rfl
    · have := hplain e (List.mem_reverse.mp he)
      cases e <;> first | exact this.elim | trivial

/-- Every step of a server keeps it. -/
theorem Settled.step (h : Settled st) (hs : st.Step cfg st') : Settled st' := by
  have ht := h.traced.step hs
  have hstay := Rows.forall₂_refl SameQueue.refl st.server.connections
  have hsub := List.Subset.refl st.batch
  have hquiet : st.past = st.past ++ [] := (List.append_nil _).symm
  have hnone : ∀ e ∈ ([] : List ServerEvent), Plain e := by simp
  rcases hs with (hcalm | hstir) | hreset
  · cases hcalm with
    | aside connections ha =>
      exact h.plain ht hquiet hnone fun p k hk =>
        hk.same (ha.imp fun _ _ ha => same_queue_unseen ha.unseen) rfl hsub
    | replay i c hc =>
      refine h.plain ht rfl (fun e he => ?_) fun p k hk =>
        hk.same (Rows.forall₂_set SameQueue.refl hc (same_queue_unseen (replay_unseen _ _ c))) rfl
          hsub
      obtain ⟨_, _, rfl⟩ := List.mem_map.mp he
      trivial
    | drain i hb =>
      refine h.plain ht rfl (fun e he => ?_) fun p k hk => hk.drain i hb
      obtain ⟨_, _, rfl⟩ := List.mem_map.mp he
      trivial
    | trim abandoned _ hb => exact h.plain ht hquiet hnone fun p k hk => hk.trim abandoned hb
    | take _ he => exact h.plain ht hquiet hnone fun p k hk => hk.take h.traced he
    | handle frame rest abandoned connections cache events hb _ _ ho hc =>
      exact h.handle hb ho hc ht
    | requeue frame rest hb => exact h.plain ht hquiet hnone fun p k hk => hk.requeue hb
  · cases hstir with
    | act i c act hc ha hb =>
      have hqueued := turn_queued cfg.codec (s := ⟨c, st.server.activePublishRoutes⟩) act ha
        (h.traced.tenancy.tenants c (List.mem_of_getElem? hc)).seated
      refine h.turn hc hb hqueued.connId ht fun k hstale hbar => ?_
      refine (hqueued.barred k hbar).resolve_right ?_
      rintro ⟨f, hf, hk⟩
      exact hstale ⟨f, hf, (hqueued.live f hf).1, hk⟩
    | detach i c claimed hc _ _ hb =>
      exact h.turn hc hb (detach_own_row c).1 ht fun k _ hbar => detach_barred c hbar
    | remove i c hc _ =>
      refine h.plain ht rfl (fun e he => ?_) fun p k hk => hk.remove hc
      cases List.mem_singleton.mp he
      trivial
    | vacate connId => exact h.plain ht hquiet hnone fun p k hk => hk.same hstay rfl hsub
    | adjust i c c' hc hu =>
      exact h.plain ht hquiet hnone fun p k hk =>
        hk.same (Rows.forall₂_set SameQueue.refl hc (same_queue_unseen hu)) rfl hsub
    | accept now transport fd =>
      exact h.plain ht hquiet hnone fun p k hk => hk.accept now transport fd
    | inject now route frameType timestamp payload s hinject _ =>
      refine h.plain ht rfl (fun e he => ?_) fun p k hk => ?_
      · obtain ⟨_, _, rfl⟩ := List.mem_map.mp he
        trivial
      · obtain ⟨id, t, hclaim, rfl⟩ := inject_spec hinject
        obtain ⟨_, routes, ids, seq, rfl, _, _⟩ :=
          claim_for_inject_spec h.traced.tenancy.external hclaim
        exact hk.same hstay rfl hsub
    | release route _ =>
      refine h.plain ht rfl (fun e he => ?_) fun p k hk => ?_
      · cases List.mem_singleton.mp he
        trivial
      · obtain ⟨hc, hn, _, _⟩ := release_injected_rest st.server route
        exact hk.same (hc ▸ hstay) hn hsub
    | forget route _ => exact h.plain ht hquiet hnone fun p k hk => hk.same hstay rfl hsub
    | tune settings => exact h.plain ht hquiet hnone fun p k hk => hk.same hstay rfl hsub
    | lead injectFirst => exact h.plain ht hquiet hnone fun p k hk => hk.same hstay rfl hsub
  · cases hreset with
    | ids => exact h.plain ht hquiet hnone fun p k hk => hk.same hstay rfl hsub
    | stop _ =>
      obtain ⟨hc, hn⟩ := stop_rest st.server
      refine h.plain ht rfl (fun e he => ?_) fun p k hk => ⟨hn.symm ▸ hk.known, ?_⟩
      · cases List.mem_singleton.mp he
        trivial
      · intro c hmem
        rw [hc] at hmem
        cases hmem

theorem settled_run (cfg : CacheConfig) (settings : ServerSettings) (ops : List ServerOp) :
    Always Inert (Server.run cfg { settings } ops).2.reverse := by
  have hrun := run_stages cfg { settings } [] ops
  generalize Server.run cfg { settings } ops = r at hrun
  have hstart : Settled ⟨{ settings }, [], []⟩ := by
    refine ⟨traced_new settings, ?_, trivial⟩
    rintro p k ⟨later, e, past, heq, _⟩
    simp at heq
  have hend : ∀ {st : Stage}, Course cfg ⟨{ settings }, [], []⟩ st → Settled st := by
    intro st hstages
    induction hstages with
    | refl => exact hstart
    | tail _ hstep ih => exact ih.step hstep
  exact (hend hrun).inert

end Steps

/-- Once a connection has an eviction of a route waiting, its frames on that route leave the
cache as it is whenever they are handled, until it queues a new frame on the route. -/
theorem abandoned_frames_never_cached (cfg : CacheConfig) (settings : ServerSettings)
    (ops : List ServerOp) {i j : Nat} {before after : Conn} {act : ConnAct} {f : RelayFrame}
    {t t' : CacheTable} (hij : i < j)
    (hi : (Server.run cfg { settings } ops).2[i]? = some (.turn before act after))
    (hk : f.route ∈ after.pendingCacheEvictions) (hp : f.publisherConnId = after.connId)
    (hj : (Server.run cfg { settings } ops).2[j]? = some (.handled f t t'))
    (hq : ∀ m e, i < m → m < j → (Server.run cfg { settings } ops).2[m]? = some e →
      ∀ g ∈ e.accepted, g.publisherConnId = f.publisherConnId → g.route ≠ f.route) :
    t' = t := by
  have hinert := (settled_run cfg settings ops).at hj
  refine hinert (since_at hi hij ⟨hp.symm, hk⟩ fun m e him hmj he => ?_)
  rintro ⟨g, hg, hgp, hgk⟩
  exact hq m e him hmj he g hg hgp hgk

def sendsAudioHeader : Inbound := tells (.media .audio 1 0 [0xAF, 0x00, 0x12, 0x10])

/-- A publisher sends a codec header and renames its stream before the header is handled. -/
def headerThenRename : List ServerOp :=
  [.accept 0 ⟨false⟩ 3,
    hears fun _ => joins ++ [publishes "cam", sendsAudioHeader, publishes "other"]]

def isTurn (p : Conn → Conn → Bool) : ServerEvent → Bool
  | .turn before _ after => p before after
  | _ => false

def isHandled (p : RelayFrame → CacheTable → CacheTable → Bool) : ServerEvent → Bool
  | .handled f t t' => p f t t'
  | _ => false

theorem turn_at {e : Option ServerEvent} {p : Conn → Conn → Bool} (h : e.any (isTurn p) = true) :
    ∃ before act after, e = some (.turn before act after) ∧ p before after = true := by
  obtain ⟨e, rfl, he⟩ := (Option.any_eq_true _ _).mp h
  cases e with
  | turn before act after => exact ⟨before, act, after, rfl, he⟩
  | _ => cases he

theorem handled_at {e : Option ServerEvent} {p : RelayFrame → CacheTable → CacheTable → Bool}
    (h : e.any (isHandled p) = true) : ∃ f t t', e = some (.handled f t t') ∧ p f t t' = true := by
  obtain ⟨e, rfl, he⟩ := (Option.any_eq_true _ _).mp h
  cases e with
  | handled f t t' => exact ⟨f, t, t', rfl, he⟩
  | _ => cases he

theorem renamed_header_not_cached :
    ∃ before act after f t t',
      (Server.run mediaConfig {} headerThenRename).2[5]? = some (.turn before act after) ∧
      (Server.run mediaConfig {} headerThenRename).2[8]? = some (.handled f t t') ∧
      f.publisherConnId = after.connId ∧ f.route ∈ after.pendingCacheEvictions ∧ t' = t := by
  obtain ⟨hrename, hheader, hsilent⟩ :
      (Server.run mediaConfig {} headerThenRename).2[5]?.any (isTurn fun _ after =>
        after.connId = 1 ∧ ("live", "cam") ∈ after.pendingCacheEvictions) = true ∧
      (Server.run mediaConfig {} headerThenRename).2[8]?.any (isHandled fun f _ _ =>
        f.publisherConnId = 1 ∧ f.route = ("live", "cam")) = true ∧
      ∀ m < 8, 5 < m → (Server.run mediaConfig {} headerThenRename).2[m]?.all
        (fun e => e.accepted.isEmpty) := by
    decide +kernel
  obtain ⟨before, act, after, hi, he⟩ := turn_at hrename
  obtain ⟨f, t, t', hj, he'⟩ := handled_at hheader
  obtain ⟨hid, hk⟩ := of_decide_eq_true he
  obtain ⟨hp, hr⟩ := of_decide_eq_true he'
  have hpa : f.publisherConnId = after.connId := hp.trans hid.symm
  have hka : f.route ∈ after.pendingCacheEvictions := hr ▸ hk
  refine ⟨before, act, after, f, t, t', hi, hj, hpa, hka, ?_⟩
  refine abandoned_frames_never_cached mediaConfig {} headerThenRename (by decide) hi hka hpa hj
    fun m e h5 h8 hm g hg => ?_
  have hnone := hsilent m h8 h5
  rw [show (Server.run mediaConfig {} headerThenRename).2[m]? = some e from hm] at hnone
  rw [List.isEmpty_iff.mp (show e.accepted.isEmpty = true from hnone)] at hg
  cases hg

end LibRtmp.Proofs
