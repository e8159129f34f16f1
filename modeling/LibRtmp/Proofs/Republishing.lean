import LibRtmp.Proofs.Abandonment
import LibRtmp.Proofs.Superseded

namespace LibRtmp.Proofs

open Actions History CacheTable

/-- This queued a frame of the connection on the route while no eviction of it was waiting. -/
def Takes (p : Nat) (k : RouteKey) (e : ServerEvent) : Prop :=
  match e with
  | .turn before _ after => after.connId = p ∧ k ∉ before.pendingCacheEvictions ∧
      ∃ f ∈ e.accepted, f.route = k
  | _ => False

def Retains (p : Nat) (k : RouteKey) : ServerEvent → Prop
  | .turn _ _ after => after.connId = p →
      k ∉ after.pendingCacheEvictions ∧ k ∉ after.abandonedRelayRoutes
  | .closed connId => connId ≠ p
  | .stopped => False
  | _ => True

/-- The connection took in a frame on the route and has kept the route since. Latest first. -/
def Retained (p : Nat) (k : RouteKey) (h : List ServerEvent) : Prop :=
  Since (fun e _ => Takes p k e) (Retains p k) h

structure Cacheable (p : Nat) (k : RouteKey) (st : Stage) : Prop where
  row : ∃ c ∈ st.server.connections, c.connId = p ∧ k ∉ c.pendingCacheEvictions ∧
    k ∉ c.abandonedRelayRoutes
  unnoted : (k, p) ∉ st.past.foldl ServerEvent.drained []

section Injecting

/-- No route that frames were added on was evicted. -/
def Spares (c d : Conn) : Prop :=
  ∀ f ∈ d.pendingRelay.drop c.pendingRelay.length,
    f.route ∈ d.pendingCacheEvictions → f.route ∈ c.pendingCacheEvictions

theorem Supplies.spares {c d : Conn} (h : Supplies c d) : Spares c d := by
  intro f hf hk
  rcases h.frames with ⟨hrelay, _⟩ | ⟨g, _, hrelay, _, hspared⟩
  · rw [hrelay, List.drop_length] at hf
    cases hf
  · rw [hrelay, List.drop_left, List.mem_singleton] at hf
    subst hf
    exact hspared hk

/-- A route that frames are queued on is not evicted by the turn that queues them. -/
theorem turn_spares (codec : Codec) {s : Session} (act : ConnAct) (hd : act ≠ .detach)
    (hs : Seated s.ledger) : Spares s.conn (s.perform codec act).2.1.conn := by
  by_cases hi : IsInject act
  · cases act with
    | inject host frameType timestamp payload =>
      rw [perform_inject]
      exact (inject_supplies _ frameType timestamp payload s).spares
    | _ => exact hi.elim
  · rcases act_walks_apart act hd hi (backs_act act hs fun h => absurd h hi) with hsteps | hqueues
    · have hsub : (s.perform codec act).2.1.conn.pendingRelay.Sublist s.conn.pendingRelay :=
        (steps_settle hi (Walks.passes hsteps).1).relay
      intro f hf
      rw [List.drop_eq_nil_of_le hsub.length_le] at hf
      cases hf
    · obtain ⟨frames, hadds⟩ := queues_add (Walks.passes hqueues).1
      have hsame : (s.perform codec act).2.1.conn.pendingCacheEvictions =
        s.conn.pendingCacheEvictions := hadds.evictions
      exact fun f _ hk => hsame ▸ hk

end Injecting

section Steps

variable {cfg : CacheConfig} {st st' : Stage} {p : Nat} {k : RouteKey}

theorem note_all_subset {keys : List RouteKey} {c : Conn}
    (h : k ∈ (keys.foldl Conn.noteAbandonedRelayRoute c).abandonedRelayRoutes) :
    k ∈ c.abandonedRelayRoutes ∨ k ∈ keys := by
  have hone : ∀ (c : Conn) (route : RouteKey),
      k ∈ (c.noteAbandonedRelayRoute route).abandonedRelayRoutes →
        k ∈ c.abandonedRelayRoutes ∨ k = route := by
    intro c route hk
    have hkept : ∀ r ∈ c.abandonedRelayRoutes.filter (fun r => r ≠ route),
        r ∈ c.abandonedRelayRoutes := fun r hr => (List.mem_filter.mp hr).1
    unfold Conn.noteAbandonedRelayRoute at hk
    dsimp only at hk
    split at hk
    · rename_i old rest hold
      rw [hold] at hkept
      split at hk
      · rcases List.mem_append.mp hk with hk | hk
        · exact .inl (hkept k (List.mem_cons_of_mem _ hk))
        · exact .inr (List.mem_singleton.mp hk)
      · rw [hold] at hk
        rcases List.mem_append.mp hk with hk | hk
        · exact .inl (hkept k hk)
        · exact .inr (List.mem_singleton.mp hk)
    · exact .inr (List.mem_singleton.mp hk)
  induction keys generalizing c with
  | nil => exact .inl h
  | cons key keys ih =>
    rcases ih h with h | h
    · exact (hone c key h).imp_right fun he => List.mem_cons.mpr (.inl he)
    · exact .inr (List.mem_cons_of_mem _ h)

/-- A step that keeps the connection's row and notes nothing about the route. -/
theorem Cacheable.keep (h : Cacheable p k st)
    (hc : ∀ c ∈ st.server.connections, c.connId = p → k ∉ c.pendingCacheEvictions →
      k ∉ c.abandonedRelayRoutes → ∃ d ∈ st'.server.connections, d.connId = p ∧
        k ∉ d.pendingCacheEvictions ∧ k ∉ d.abandonedRelayRoutes)
    (hn : (k, p) ∉ st.past.foldl ServerEvent.drained [] →
      (k, p) ∉ st'.past.foldl ServerEvent.drained []) : Cacheable p k st' := by
  obtain ⟨⟨c, hmem, hid, hev, hab⟩, hnoted⟩ := h
  exact ⟨hc c hmem hid hev hab, hn hnoted⟩

def SameMarks (c d : Conn) : Prop :=
  d.connId = c.connId ∧ d.pendingCacheEvictions = c.pendingCacheEvictions ∧
    d.abandonedRelayRoutes = c.abandonedRelayRoutes

theorem SameMarks.refl (c : Conn) : SameMarks c c := ⟨rfl, rfl, rfl⟩

theorem SameQueue.marks {c d : Conn} (h : SameQueue c d) : SameMarks c d := ⟨h.1, h.2.2⟩

theorem Cacheable.same (h : Cacheable p k st)
    (hc : List.Forall₂ SameMarks st.server.connections st'.server.connections)
    (hn : (k, p) ∉ st.past.foldl ServerEvent.drained [] →
      (k, p) ∉ st'.past.foldl ServerEvent.drained []) : Cacheable p k st' := by
  refine h.keep (fun c hmem hid hev hab => ?_) hn
  obtain ⟨d, hd, hdid, hdev, hdab⟩ := Rows.forall₂_mem hc hmem
  exact ⟨d, hd, hdid.trans hid, hdev ▸ hev, hdab ▸ hab⟩

def Silent : ServerEvent → Prop
  | .turn _ _ _ => False
  | .abandoned _ _ => False
  | _ => True

theorem drained_silent {events : List ServerEvent} (h : ∀ e ∈ events, Silent e)
    (keys : List Abandoned) : events.foldl ServerEvent.drained keys = keys := by
  induction events generalizing keys with
  | nil => rfl
  | cons e events ih =>
    have hrest := fun keys => ih (fun x hx => h x (List.mem_cons_of_mem _ hx)) keys
    have hfirst := h e List.mem_cons_self
    cases e with
    | turn _ _ _ => exact hfirst.elim
    | abandoned _ _ => exact hfirst.elim
    | _ => exact hrest keys

theorem noted_silent {past events : List ServerEvent} (h : ∀ e ∈ events, Silent e)
    (hn : (k, p) ∉ past.foldl ServerEvent.drained []) :
    (k, p) ∉ (past ++ events).foldl ServerEvent.drained [] := by
  rw [List.foldl_append, drained_silent h]
  exact hn

/-- A frame whose route the connection has kept is cached. -/
theorem Cacheable.handle (h : Cacheable p k st) (ht : Tenancy st.server) {frame : RelayFrame}
    {abandoned : List Abandoned} (ha : st.Noted abandoned) (hp : frame.publisherConnId = p)
    (hk : frame.route = k) :
    Server.cacheRelayFrameUnlessOrphaned cfg abandoned st.server.connections st.server.cache frame =
      cacheRelayFrame cfg st.server.cache frame := by
  obtain ⟨⟨c, hmem, hid, _, hab⟩, hnoted⟩ := h
  have hgranted : Server.cacheable abandoned st.server.connections frame = true := by
    unfold Server.cacheable
    rw [Bool.and_eq_true]
    constructor
    · have hnot : (frame.route, frame.publisherConnId) ∉ abandoned := by
        rw [hk, hp]
        exact fun hin => hnoted (ha hin)
      simpa using hnot
    · split
      · rename_i d hfind
        have hdid : d.connId = frame.publisherConnId := by simpa using List.find?_some hfind
        obtain ⟨i, hi⟩ := List.mem_iff_getElem?.mp hmem
        obtain ⟨j, hj⟩ := List.mem_iff_getElem?.mp (List.mem_of_find?_eq_some hfind)
        have hij := ids_apart ht.ids hi hj (hid.trans (hdid.trans hp).symm)
        subst hij
        cases hi.symm.trans hj
        simpa [Conn.relayRouteAbandoned, hk] using hab
      · rename_i hfind
        have hne := List.find?_eq_none.mp hfind c hmem
        simp [hid, hp] at hne
  unfold Server.cacheRelayFrameUnlessOrphaned
  rw [if_pos hgranted]

theorem requeue_marks (s : Server) (frame : RelayFrame) :
    List.Forall₂ SameMarks s.connections (s.requeueRelayFrame frame).connections := by
  unfold Server.requeueRelayFrame
  split
  · exact Rows.forall₂_refl SameMarks.refl _
  · split
    · rename_i i hi
      obtain ⟨c, hc, _⟩ := index_of_row hi
      rw [List.modify_eq_set_getElem?, hc]
      exact Rows.forall₂_set SameMarks.refl hc ⟨rfl, rfl, rfl⟩
    · obtain ⟨orphaned, hsame⟩ := push_orphan_same s frame
      rw [hsame]
      exact Rows.forall₂_refl SameMarks.refl _

def Stored (cfg : CacheConfig) (e : ServerEvent) (h : List ServerEvent) : Prop :=
  match e with
  | .turn _ _ after => ∀ f ∈ e.accepted, f.publisherConnId = after.connId
  | .handled f before after =>
    Retained f.publisherConnId f.route h → after = cacheRelayFrame cfg before f
  | _ => True

/-- In every state so far: what was kept may be cached, and its frames were. -/
structure Restored (cfg : CacheConfig) (st : Stage) : Prop where
  tenancy : Tenancy st.server
  admits : ∀ p k, Retained p k st.past.reverse → Cacheable p k st
  stored : Always (Stored cfg) st.past.reverse

/-- A step without turns, if it leaves what may be cached so. -/
theorem Restored.plain (h : Restored cfg st) (ht : Tenancy st'.server) {events : List ServerEvent}
    (hp : st'.past = st.past ++ events) (he : ∀ e ∈ events, Plain e)
    (hs : ∀ p k, (∀ e ∈ events, Retains p k e) → Cacheable p k st → Cacheable p k st') :
    Restored cfg st' := by
  refine ⟨ht, fun p k hkept => ?_, ?_⟩
  · rw [hp, List.reverse_append] at hkept
    obtain ⟨hretains, hkept⟩ := hkept.back fun e hmem _ htakes => by
      have := he e (List.mem_reverse.mp hmem)
      cases e <;> first | exact this | exact htakes
    exact hs p k (fun e hmem => hretains e (List.mem_reverse.mpr hmem)) (h.admits p k hkept)
  · rw [hp, List.reverse_append]
    refine h.stored.append fun e hmem past => ?_
    have := he e (List.mem_reverse.mp hmem)
    cases e <;> first | exact this.elim | trivial

/-- The row of a connection that has just had its turn. -/
theorem put_cacheable {i : Nat} {c d : Conn} {routes : Routes} {past : List ServerEvent}
    (hc : st.server.connections[i]? = some c) (hid : d.connId = c.connId)
    (hrow : d.connId = p → k ∉ d.pendingCacheEvictions ∧ k ∉ d.abandonedRelayRoutes)
    (hother : d.connId ≠ p → ∃ e ∈ st.server.connections, e.connId = p ∧
      k ∉ e.pendingCacheEvictions ∧ k ∉ e.abandonedRelayRoutes)
    (hn : (k, p) ∉ past.foldl ServerEvent.drained []) :
    Cacheable p k { st with server := st.server.put i ⟨d, routes⟩, past } := by
  have hlt := (List.getElem?_eq_some_iff.mp hc).1
  refine ⟨?_, hn⟩
  by_cases hp : d.connId = p
  · exact ⟨d, List.mem_iff_getElem?.mpr ⟨i, List.getElem?_set_self hlt⟩, hp, hrow hp⟩
  · obtain ⟨e, he, heid, hclear⟩ := hother hp
    obtain ⟨j, hj⟩ := List.mem_iff_getElem?.mp he
    have hij : i ≠ j := by
      rintro rfl
      cases hc.symm.trans hj
      exact hp (hid.trans heid)
    refine ⟨e, List.mem_iff_getElem?.mpr ⟨j, ?_⟩, heid, hclear⟩
    exact (List.getElem?_set_ne hij).trans hj

theorem detach_relay_sublist (c : Conn) :
    c.detachLostPublishRoute.pendingRelay.Sublist c.pendingRelay := by
  unfold Conn.detachLostPublishRoute
  split
  · exact .refl _
  · rename_i claimed _
    obtain ⟨_, _, _, hs, heq⟩ := (evict_both_evicts { c with
      claimedPublishRoute := none
      relayEnabled := false
      pendingRelay := c.pendingRelay.filter (fun f =>
        ¬ (f.app = c.app ∧ (f.streamName = claimed ∨ f.streamName = c.relayRouteKey))) }
      claimed c.relayRouteKey).1.drops
    rw [heq]
    exact hs.trans List.filter_sublist

/-- An act gives the route up, or leaves what was kept cacheable. -/
theorem Restored.act (h : Restored cfg st) {i : Nat} {c : Conn} {act : ConnAct}
    (hc : st.server.connections[i]? = some c) (ha : act ≠ .detach)
    (ht : Tenancy (st.server.put i
      (Session.perform cfg.codec act ⟨c, st.server.activePublishRoutes⟩).2.1)) :
    Restored cfg { st with
      server := st.server.put i
        (Session.perform cfg.codec act ⟨c, st.server.activePublishRoutes⟩).2.1
      past := st.past ++
        (Session.perform cfg.codec act ⟨c, st.server.activePublishRoutes⟩).2.2 } := by
  have hseated := (h.tenancy.tenants c (List.mem_of_getElem? hc)).seated
  have hqueued := turn_queued cfg.codec (s := ⟨c, st.server.activePublishRoutes⟩) act ha hseated
  have hspares := turn_spares cfg.codec (s := ⟨c, st.server.activePublishRoutes⟩) act ha hseated
  have htrace : (Session.perform cfg.codec act ⟨c, st.server.activePublishRoutes⟩).2.2 =
      [.turn c act (Session.perform cfg.codec act ⟨c, st.server.activePublishRoutes⟩).2.1.conn] :=
    rfl
  rw [htrace]
  generalize (Session.perform cfg.codec act ⟨c, st.server.activePublishRoutes⟩).2.1 = t
    at ht hqueued hspares
  obtain ⟨d, routes⟩ := t
  have hfresh : (st.past ++ [ServerEvent.turn c act d]).foldl ServerEvent.drained [] = [] := by
    rw [List.foldl_append]
    cases act <;> first | rfl | exact absurd rfl ha
  refine ⟨ht, fun p k hkept => ?_, ?_⟩
  · rw [List.reverse_append] at hkept
    refine put_cacheable hc hqueued.connId (fun hp => ?_) (fun hp => ?_) (by rw [hfresh]; simp)
    · rcases since_cons.mp hkept with ⟨_, hclear, f, hf, hk⟩ | ⟨hretains, _⟩
      · refine ⟨fun hev => hclear ?_, hk ▸ (hqueued.live f hf).2⟩
        exact hk ▸ hspares f hf (hk.symm ▸ hev)
      · exact hretains hp
    · rcases since_cons.mp hkept with ⟨hid, _⟩ | ⟨_, hkept⟩
      · exact absurd hid hp
      · exact (h.admits p k hkept).row
  · rw [List.reverse_append]
    exact ⟨fun f hf => (hqueued.live f hf).1.trans hqueued.connId.symm, h.stored⟩

theorem Restored.detach (h : Restored cfg st) {i : Nat} {c : Conn}
    (hc : st.server.connections[i]? = some c)
    (ht : Tenancy (st.server.put i ⟨c.detachLostPublishRoute, st.server.activePublishRoutes⟩)) :
    Restored cfg { st with
      server := st.server.put i ⟨c.detachLostPublishRoute, st.server.activePublishRoutes⟩
      past := st.past ++ [.turn c .detach c.detachLostPublishRoute] } := by
  have hnone : (ServerEvent.turn c .detach c.detachLostPublishRoute).accepted = [] :=
    List.drop_eq_nil_of_le (detach_relay_sublist c).length_le
  refine ⟨ht, fun p k hkept => ?_, ?_⟩
  · rw [List.reverse_append] at hkept
    rcases since_cons.mp hkept with ⟨_, _, f, hf, _⟩ | ⟨hretains, hkept⟩
    · rw [hnone] at hf
      cases hf
    · have hbefore := h.admits p k hkept
      refine put_cacheable hc (detach_own_row c).1 hretains (fun _ => hbefore.row) ?_
      rw [List.foldl_append]
      exact hbefore.unnoted
  · rw [List.reverse_append]
    refine ⟨fun f hf => ?_, h.stored⟩
    rw [hnone] at hf
    cases hf

/-- What is drained was given up before. -/
theorem Restored.drain (h : Restored cfg st) (i : Nat)
    (ht : Tenancy (Server.drainOne ([], st.server) i).2) :
    Restored cfg { st with
      server := (Server.drainOne ([], st.server) i).2
      past := st.past ++ abandonments (Server.drainOne ([], st.server) i).1 } := by
  refine h.plain ht rfl (fun e he => ?_) fun p k _ hk => ?_
  · obtain ⟨_, _, rfl⟩ := List.mem_map.mp he
    trivial
  · unfold Server.drainOne
    dsimp only
    cases hc : st.server.connections[i]? with
    | none =>
      refine hk.same (Rows.forall₂_refl SameMarks.refl _) fun hn => ?_
      simpa [abandonments] using hn
    | some c =>
      have hid := (note_all_drops (c.pendingCacheEvictions ++ c.abandonedRelayRoutes)
        { c with pendingCacheEvictions := [] }).own_row.1
      have hempty := note_all_evictions (c.pendingCacheEvictions ++ c.abandonedRelayRoutes)
        { c with pendingCacheEvictions := [] }
      have hnokey : c.connId = p → k ∉ c.pendingCacheEvictions ++ c.abandonedRelayRoutes := by
        intro hp hin
        obtain ⟨d, hd, hdid, hev, hab⟩ := hk.row
        obtain ⟨j, hj⟩ := List.mem_iff_getElem?.mp hd
        have hij := ids_apart h.tenancy.ids hc hj (hp.trans hdid.symm)
        subst hij
        cases hc.symm.trans hj
        exact (List.mem_append.mp hin).elim hev hab
      have hput : Cacheable p k { st with
          server := st.server.put i ⟨(c.pendingCacheEvictions ++ c.abandonedRelayRoutes).foldl
            Conn.noteAbandonedRelayRoute { c with pendingCacheEvictions := [] },
            st.server.activePublishRoutes⟩
          past := st.past ++ abandonments ([] ++
            (c.pendingCacheEvictions ++ c.abandonedRelayRoutes).map (fun k => (k, c.connId))) } := by
        refine put_cacheable hc hid (fun hp => ⟨?_, fun hin => ?_⟩) (fun _ => hk.row) ?_
        · rw [hempty]
          simp
        · rcases note_all_subset hin with hin | hin
          · exact hnokey (hid.symm.trans hp) (List.mem_append_right _ hin)
          · exact hnokey (hid.symm.trans hp) hin
        · rw [List.foldl_append, drained_abandonments, List.nil_append, List.mem_append, not_or]
          refine ⟨hk.unnoted, fun hin => ?_⟩
          obtain ⟨key, hkey, heq⟩ := List.mem_map.mp hin
          cases heq
          exact hnokey rfl hkey
      exact ⟨hput.row, hput.unnoted⟩

/-- A frame that was kept is cached when it is handled. -/
theorem Restored.handle (h : Restored cfg st) {frame : RelayFrame} {rest : List RelayFrame}
    {abandoned : List Abandoned} {connections : List Conn} {cache : CacheTable}
    {events : List ServerEvent} (ha : st.Noted abandoned)
    (ho : Offers cfg.codec frame st.server.connections connections events)
    (hc : cache = Server.cacheRelayFrameUnlessOrphaned cfg abandoned st.server.connections
      st.server.cache frame)
    (ht : Tenancy { st.server with connections, cache }) :
    Restored cfg
      { server := { st.server with connections, cache }
        batch := rest
        past := st.past ++ .handled frame st.server.cache cache :: events } := by
  have hrows : List.Forall₂ SameMarks st.server.connections connections :=
    ho.aside.imp fun _ _ ha => (same_queue_unseen ha.unseen).marks
  have hdelivered : ∀ e ∈ events, ∃ connId, e = .delivered connId frame := by
    intro e he
    obtain ⟨c, _, rfl, _⟩ := ho.offered e he
    exact ⟨c.connId, rfl⟩
  refine ⟨ht, fun p k hkept => ?_, ?_⟩
  · rw [List.reverse_append] at hkept
    have hbefore := (hkept.back fun e hmem _ htakes => by
      rcases List.mem_cons.mp (List.mem_reverse.mp hmem) with rfl | he
      · exact htakes
      · obtain ⟨_, rfl⟩ := hdelivered e he
        exact htakes).2
    refine (h.admits p k hbefore).same hrows (noted_silent fun e he => ?_)
    rcases List.mem_cons.mp he with rfl | he
    · trivial
    · obtain ⟨_, rfl⟩ := hdelivered e he
      trivial
  · rw [List.reverse_append, List.reverse_cons, List.append_assoc]
    refine Always.append ⟨fun hkept => ?_, h.stored⟩ fun e he past => ?_
    · rw [hc]
      exact (h.admits _ _ hkept).handle h.tenancy ha rfl rfl
    · obtain ⟨_, rfl⟩ := hdelivered e (List.mem_reverse.mp he)
      trivial

/-- Every step of a server keeps it. -/
theorem Restored.step (h : Restored cfg st) (hs : st.Step cfg st') : Restored cfg st' := by
  have ht := h.tenancy.step hs
  have hstay := Rows.forall₂_refl SameMarks.refl st.server.connections
  have hquiet : st.past = st.past ++ [] := (List.append_nil _).symm
  have hnone : ∀ e ∈ ([] : List ServerEvent), Plain e := by simp
  rcases hs with (hcalm | hstir) | hreset
  · cases hcalm with
    | aside connections ha =>
      exact h.plain ht hquiet hnone fun p k _ hk =>
        hk.same (ha.imp fun _ _ ha => (same_queue_unseen ha.unseen).marks) id
    | replay i c hc =>
      have hevents : ∀ e ∈ c.replayed (c.replayInitFrames cfg.codec st.server.cache).2.2,
          Plain e ∧ Silent e := by
        intro e he
        obtain ⟨_, _, rfl⟩ := List.mem_map.mp he
        exact ⟨trivial, trivial⟩
      exact h.plain ht rfl (fun e he => (hevents e he).1) fun p k _ hk =>
        hk.same (Rows.forall₂_set SameMarks.refl hc (same_queue_unseen (replay_unseen _ _ c)).marks)
          (noted_silent fun e he => (hevents e he).2)
    | drain i _ => exact h.drain i ht
    | trim abandoned _ _ =>
      refine h.plain ht hquiet hnone fun p k _ hk => hk.same
        (List.forall₂_map_right_iff.mpr (List.forall₂_same.mpr fun c _ => ?_)) id
      split <;> exact ⟨rfl, rfl, rfl⟩
    | take _ _ =>
      refine h.plain ht hquiet hnone fun p k _ hk => hk.same
        (List.forall₂_map_right_iff.mpr (List.forall₂_same.mpr fun c _ => ?_)) id
      split <;> exact ⟨rfl, rfl, rfl⟩
    | handle frame rest abandoned connections cache events _ _ ha ho hc => exact h.handle ha ho hc ht
    | requeue frame rest _ =>
      refine h.plain ht hquiet hnone fun p k _ hk => hk.same ?_ id
      exact requeue_marks st.server frame
  · cases hstir with
    | act i c act hc ha _ => exact h.act hc ha ht
    | detach i c claimed hc _ _ _ => exact h.detach hc ht
    | remove i c hc _ =>
      refine h.plain ht rfl (fun e he => ?_) fun p k hretains hk => hk.keep (fun d hd hid hev hab => ?_)
        (noted_silent fun e he => ?_)
      · cases List.mem_singleton.mp he
        trivial
      · obtain ⟨orphaned, heq⟩ := remove_server hc
        rw [heq]
        refine ⟨d, ?_, hid, hev, hab⟩
        obtain ⟨j, hj⟩ := List.mem_iff_getElem?.mp hd
        refine List.mem_eraseIdx_iff_getElem?.mpr ⟨j, ?_, hj⟩
        rintro rfl
        cases hc.symm.trans hj
        exact hretains _ (List.mem_singleton.mpr rfl) hid
      · cases List.mem_singleton.mp he
        trivial
    | vacate connId => exact h.plain ht hquiet hnone fun p k _ hk => hk.same hstay id
    | adjust i c c' hc hu =>
      exact h.plain ht hquiet hnone fun p k _ hk =>
        hk.same (Rows.forall₂_set SameMarks.refl hc (same_queue_unseen hu).marks) id
    | accept now transport fd =>
      refine h.plain ht hquiet hnone fun p k _ hk => hk.keep (fun d hd hid hev hab => ?_) id
      refine ⟨d, ?_, hid, hev, hab⟩
      unfold Server.addConnection
      split
      · exact hd
      · exact List.mem_append_left _ hd
    | inject now route frameType timestamp payload s hinject _ =>
      have hevents : ∀ e ∈ (s.pendingInjectedRelay.drop st.server.pendingInjectedRelay.length).map
          ServerEvent.injected, Plain e ∧ Silent e := by
        intro e he
        obtain ⟨_, _, rfl⟩ := List.mem_map.mp he
        exact ⟨trivial, trivial⟩
      refine h.plain ht rfl (fun e he => (hevents e he).1) fun p k _ hk => hk.same ?_
        (noted_silent fun e he => (hevents e he).2)
      obtain ⟨id, t, hclaim, rfl⟩ := inject_spec hinject
      obtain ⟨_, routes, ids, seq, rfl, _, _⟩ := claim_for_inject_spec h.tenancy.external hclaim
      exact hstay
    | release route _ =>
      have hevents : ∀ e ∈ [ServerEvent.released route], Plain e ∧ Silent e := by
        intro e he
        cases List.mem_singleton.mp he
        exact ⟨trivial, trivial⟩
      refine h.plain ht rfl (fun e he => (hevents e he).1) fun p k _ hk => hk.same ?_
        (noted_silent fun e he => (hevents e he).2)
      rw [(release_injected_rest st.server route).1]
      exact hstay
    | forget route _ => exact h.plain ht hquiet hnone fun p k _ hk => hk.same hstay id
    | tune settings => exact h.plain ht hquiet hnone fun p k _ hk => hk.same hstay id
    | lead _ => exact h.plain ht hquiet hnone fun p k _ hk => hk.same hstay id
  · cases hreset with
    | ids => exact h.plain ht hquiet hnone fun p k _ hk => hk.same hstay id
    | stop _ =>
      refine h.plain ht rfl (fun e he => ?_) fun p k hretains _ => ?_
      · cases List.mem_singleton.mp he
        trivial
      · exact (hretains _ (List.mem_singleton.mpr rfl)).elim

theorem restored_run (cfg : CacheConfig) (settings : ServerSettings) (ops : List ServerOp) :
    Always (Stored cfg) (Server.run cfg { settings } ops).2.reverse := by
  have hrun := run_stages cfg { settings } [] ops
  generalize Server.run cfg { settings } ops = r at hrun
  have hstart : Restored cfg ⟨{ settings }, [], []⟩ := by
    refine ⟨tenancy_new settings, ?_, trivial⟩
    rintro p k ⟨later, e, past, heq, _⟩
    simp at heq
  have hend : ∀ {st : Stage}, Course cfg ⟨{ settings }, [], []⟩ st → Restored cfg st := by
    intro st hstages
    induction hstages with
    | refl => exact hstart
    | tail _ hstep ih => exact ih.step hstep
  exact (hend hrun).stored

end Steps

/-- A frame to cache that fits is in its slot afterwards. -/
theorem cache_frame_stores {cfg : CacheConfig} {t : CacheTable} {frame : RelayFrame}
    {kind : InitKind} (hk : initKind cfg.codec frame = some kind)
    (hsize : frame.payload.length ≤ kind.cap) (hroom : leftOut cfg t frame = false) :
    ∃ c, (cacheRelayFrame cfg t frame).streamCache.lookup frame.route = some c ∧
      slotOf c kind = some frame.payload := by
  have hin : ¬ frame.payload.length > kind.cap := Nat.not_lt.mpr hsize
  unfold leftOut at hroom
  rw [hk] at hroom
  dsimp only at hroom
  rw [if_neg hin, Bool.not_eq_false'] at hroom
  rw [cache_frame_eq, hk]
  dsimp only
  rw [if_neg hin, store_frame_eq]
  generalize reserveStreamCacheStorage cfg t
    (frameReservation t frame (replacedBy cfg.codec frame kind)) = result at hroom
  obtain ⟨granted, u⟩ := result
  cases hroom
  refine ⟨_, AList.lookup_insert _, ?_⟩
  cases kind with
  | metadata => rfl
  | keyframe => rfl
  | videoHeader track =>
    rw [init_kind_video hk]
    exact (store_slot _ _ _ _).trans (if_pos rfl)
  | audioHeader track =>
    rw [init_kind_audio hk]
    exact (store_slot _ _ _ _).trans (if_pos rfl)

/-- A header, keyframe or metadata within the limits is stored when it is handled, if its
connection had no eviction of the route waiting when it queued the frame, has not given the
route up since, and there is room. -/
theorem republished_frames_cached (cfg : CacheConfig) (settings : ServerSettings)
    (ops : List ServerOp) {i j : Nat} {before after : Conn} {act : ConnAct} {f : RelayFrame}
    {t t' : CacheTable} {kind : InitKind} (hij : i < j)
    (hi : (Server.run cfg { settings } ops).2[i]? = some (.turn before act after))
    (hf : f ∈ (ServerEvent.turn before act after).accepted)
    (hclear : f.route ∉ before.pendingCacheEvictions)
    (hkeeps : ∀ m e, i < m → m < j → (Server.run cfg { settings } ops).2[m]? = some e →
      Retains f.publisherConnId f.route e)
    (hj : (Server.run cfg { settings } ops).2[j]? = some (.handled f t t'))
    (hk : initKind cfg.codec f = some kind) (hsize : f.payload.length ≤ kind.cap)
    (hroom : leftOut cfg t f = false) :
    ∃ c, t'.streamCache.lookup f.route = some c ∧ slotOf c kind = some f.payload := by
  have hrun := restored_run cfg settings ops
  have hmine : f.publisherConnId = after.connId := hrun.at hi f hf
  have hstored : t' = cacheRelayFrame cfg t f :=
    hrun.at hj (since_at hi hij ⟨hmine.symm, hclear, f, hf, rfl⟩ hkeeps)
  rw [hstored]
  exact cache_frame_stores hk hsize hroom

def camHeader : RelayFrame := camFrame .audio [0xAF, 0x00, 0x12, 0x10]

def publishedHeader : List ServerOp :=
  [.accept 0 ⟨false⟩ 3, hears fun _ => joins ++ [publishes "cam", sendsAudioHeader]]

theorem published_header_cached :
    ∃ t t' c, (Server.run mediaConfig {} publishedHeader).2[5]? = some (.handled camHeader t t') ∧
      t'.streamCache.lookup ("live", "cam") = some c ∧
      slotOf c (.audioHeader none) = some camHeader.payload := by
  obtain ⟨hturn, hhandled⟩ :
      (Server.run mediaConfig {} publishedHeader).2[4]?.any (isTurn fun before after =>
        camHeader ∈ after.pendingRelay.drop before.pendingRelay.length ∧
          camHeader.route ∉ before.pendingCacheEvictions) = true ∧
      (Server.run mediaConfig {} publishedHeader).2[5]?.any (isHandled fun f t _ =>
        f = camHeader ∧ leftOut mediaConfig t f = false) = true := by
    decide +kernel
  obtain ⟨before, act, after, hi, he⟩ := turn_at hturn
  obtain ⟨f, t, t', hj, he'⟩ := handled_at hhandled
  obtain ⟨hf, hclear⟩ := of_decide_eq_true he
  obtain ⟨rfl, hroom⟩ := of_decide_eq_true he'
  obtain ⟨c, hc, hslot⟩ := republished_frames_cached mediaConfig {} publishedHeader
    (by decide : 4 < 5) hi hf hclear (fun m e h4 h5 _ => by omega) hj
    (by decide +kernel : initKind mediaConfig.codec camHeader = some (.audioHeader none))
    (by decide +kernel) hroom
  exact ⟨t, t', c, hj, hc, hslot⟩

/-- A publisher ends its stream, publishes it again and sends a codec header, all at once. -/
def republishedHeader : List ServerOp :=
  [.accept 0 ⟨false⟩ 3, hears fun _ => joins ++ [publishes "cam", tells (.command .fcUnpublish),
    publishes "cam", sendsAudioHeader]]

def isAbandoned : ServerEvent → Bool
  | .abandoned _ _ => true
  | _ => false

/-- The eviction of the ended stream is still waiting when the header is queued, so the header
is not cached although there is room and the route is claimed again. -/
theorem republished_header_not_cached :
    ∃ before act after t t',
      (Server.run mediaConfig {} republishedHeader).2[6]? = some (.turn before act after) ∧
      camHeader ∈ (ServerEvent.turn before act after).accepted ∧
      after.claimedPublishRoute = some "cam" ∧
      (∀ m e, 6 < m → m < 9 → (Server.run mediaConfig {} republishedHeader).2[m]? = some e →
        Retains 1 ("live", "cam") e) ∧
      (Server.run mediaConfig {} republishedHeader).2[9]? = some (.handled camHeader t t') ∧
      initKind mediaConfig.codec camHeader = some (.audioHeader none) ∧
      camHeader.payload.length ≤ (InitKind.audioHeader none).cap ∧
      leftOut mediaConfig t camHeader = false ∧
      t'.streamCache.lookup ("live", "cam") = none := by
  obtain ⟨hturn, hkeeps, hhandled⟩ :
      (Server.run mediaConfig {} republishedHeader).2[6]?.any (isTurn fun before after =>
        camHeader ∈ after.pendingRelay.drop before.pendingRelay.length ∧
          after.claimedPublishRoute = some "cam") = true ∧
      (∀ m < 9, 6 < m →
        (Server.run mediaConfig {} republishedHeader).2[m]?.all isAbandoned = true) ∧
      (Server.run mediaConfig {} republishedHeader).2[9]?.any (isHandled fun f t t' =>
        f = camHeader ∧ leftOut mediaConfig t f = false ∧
          (t'.streamCache.lookup ("live", "cam")).isNone = true) = true := by
    decide +kernel
  obtain ⟨before, act, after, hi, he⟩ := turn_at hturn
  obtain ⟨f, t, t', hj, he'⟩ := handled_at hhandled
  obtain ⟨hf, hclaimed⟩ := of_decide_eq_true he
  obtain ⟨rfl, hroom, hnone⟩ := of_decide_eq_true he'
  refine ⟨before, act, after, t, t', hi, hf, hclaimed, fun m e h6 h9 hm => ?_, hj,
    by decide +kernel, by decide +kernel, hroom, Option.isNone_iff_eq_none.mp hnone⟩
  have hdrained := hkeeps m h9 h6
  rw [hm] at hdrained
  cases e with
  | abandoned _ _ => exact True.intro
  | _ => exact absurd hdrained Bool.false_ne_true

end LibRtmp.Proofs
