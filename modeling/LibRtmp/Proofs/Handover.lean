import Mathlib.Data.List.Flatten
import LibRtmp.Proofs.Provenance

namespace LibRtmp.Proofs

def unhandled (route : RouteKey) (events : List ServerEvent) : List RelayFrame :=
  ((acceptedFrames events).filter (RelayFrame.isOn route)).drop
    ((handledFrames events).filter (RelayFrame.isOn route)).length

/-- The frames of a route that are to be handled come in the order of the connections. -/
def Rising (route : RouteKey) (events : List ServerEvent) : Prop :=
  ∀ i ≤ events.length,
    ((unhandled route (events.take i)).map RelayFrame.publisherConnId).Pairwise (· ≤ ·)

def closedConns (events : List ServerEvent) : List Nat :=
  events.filterMap (fun
    | .closed connId => some connId
    | _ => none)

def Staying (route : RouteKey) (events : List ServerEvent) : Prop :=
  ∀ f ∈ acceptedFrames events, f.route = route → f.publisherConnId ∉ closedConns events

instance (route : RouteKey) (events : List ServerEvent) : Decidable (Rising route events) :=
  inferInstanceAs (Decidable (∀ i ≤ events.length, List.Pairwise _ _))

instance (route : RouteKey) (events : List ServerEvent) : Decidable (Staying route events) :=
  inferInstanceAs (Decidable (∀ f ∈ acceptedFrames events, _))

section Queues

variable {connections connections' : List Conn} {route : RouteKey}

def Thins (c d : Conn) : Prop := d.connId = c.connId ∧ d.pendingRelay.Sublist c.pendingRelay

theorem Thins.refl (c : Conn) : Thins c c := ⟨rfl, .refl _⟩

theorem SameQueue.thins {c d : Conn} (h : SameQueue c d) : Thins c d :=
  ⟨h.1, h.2.1 ▸ .refl _⟩

theorem Drops.thins {c d : Conn} (h : Drops c d) : Thins c d := by
  obtain ⟨_, _, _, hs, rfl⟩ := h
  exact ⟨rfl, hs⟩

theorem pending_thins (h : List.Forall₂ Thins connections connections') :
    (connections'.flatMap Conn.pendingRelay).Sublist (connections.flatMap Conn.pendingRelay) := by
  induction h with
  | nil => exact .refl _
  | cons hrow _ ih => exact hrow.2.append ih

theorem not_on {f : RelayFrame} (h : f.route ≠ route) : RelayFrame.isOn route f = false :=
  decide_eq_false h

/-- What one connection takes in comes last, if nobody after it has frames of the route. -/
theorem pending_grows {i : Nat} {c d : Conn} {kept new : List RelayFrame}
    (hsorted : (connections.map Conn.connId).Pairwise (· < ·)) (hmine : OwnFrames connections)
    (hc : connections[i]? = some c) (hd : d.pendingRelay = kept ++ new)
    (hkept : kept.Sublist c.pendingRelay)
    (hlast : new.filter (RelayFrame.isOn route) ≠ [] →
      ∀ f ∈ connections.flatMap Conn.pendingRelay, f.route = route →
        f.publisherConnId ≤ c.connId) :
    (((connections.set i d).flatMap Conn.pendingRelay).filter (RelayFrame.isOn route)).Sublist
      ((connections.flatMap Conn.pendingRelay).filter (RelayFrame.isOn route) ++
        new.filter (RelayFrame.isOn route)) := by
  induction connections generalizing i with
  | nil => cases hc
  | cons e connections ih =>
    obtain ⟨hbelow, hrest⟩ := List.pairwise_cons.mp hsorted
    have hothers : OwnFrames connections := fun a ha => hmine a (List.mem_cons_of_mem e ha)
    cases i with
    | zero =>
      cases hc
      rw [List.set_cons_zero, List.flatMap_cons, List.flatMap_cons, hd]
      simp only [List.filter_append, List.append_assoc]
      refine (hkept.filter _).append ?_
      by_cases hnew : new.filter (RelayFrame.isOn route) = []
      · simp [hnew]
      · have hnone : (connections.flatMap Conn.pendingRelay).filter (RelayFrame.isOn route) = [] := by
          rw [List.filter_eq_nil_iff]
          intro f hf hon
          have hle := hlast hnew f (List.mem_append_right _ hf) (of_decide_eq_true hon)
          obtain ⟨a, ha, hfa⟩ := List.mem_flatMap.mp hf
          have hlt := hbelow a.connId (List.mem_map.mpr ⟨a, ha, rfl⟩)
          rw [hothers a ha f hfa] at hle
          omega
        rw [hnone, List.append_nil, List.nil_append]
    | succ i =>
      rw [List.set_cons_succ, List.flatMap_cons, List.flatMap_cons]
      simp only [List.filter_append, List.append_assoc]
      refine (List.Sublist.refl _).append (ih hrest hothers hc fun hnew f hf => ?_)
      exact hlast hnew f (List.mem_append_right _ hf)

end Queues

/-- The frames of a route were handled, and wait, in the order they were accepted in. -/
structure Handed (route : RouteKey) (st : Stage) : Prop where
  traced : Traced st
  sorted : (st.server.connections.map Conn.connId).Pairwise (· < ·)
  orphans : ∀ f ∈ st.server.orphanedRelay, f.route ≠ route
  present : ∀ f ∈ st.batch, f.route = route → isExternalPublisherId f.publisherConnId = true ∨
    f.publisherConnId ∈ st.server.connections.map Conn.connId
  order : ((handledFrames st.past).filter (RelayFrame.isOn route) ++
      st.server.queued.filter (RelayFrame.isOn route) ++
      st.batch.filter (RelayFrame.isOn route)).Sublist
    ((acceptedFrames st.past).filter (RelayFrame.isOn route))

section Steps

variable {cfg : CacheConfig} {route : RouteKey} {st st' : Stage}

theorem queued_route {s : Server} (h : ∀ f ∈ s.orphanedRelay, f.route ≠ route) :
    s.queued.filter (RelayFrame.isOn route) =
      (s.connections.flatMap Conn.pendingRelay).filter (RelayFrame.isOn route) ++
        s.pendingInjectedRelay.filter (RelayFrame.isOn route) := by
  have hnone : s.orphanedRelay.filter (RelayFrame.isOn route) = [] := by
    rw [List.filter_eq_nil_iff]
    intro f hf
    simp [not_on (h f hf)]
  unfold Server.queued
  rw [List.filter_append, List.filter_append, hnone, List.nil_append]

/-- A step that only loses frames. -/
theorem Handed.thin (h : Handed route st) (ht : Traced st')
    (hc : List.Forall₂ Thins st.server.connections st'.server.connections)
    (hi : st'.server.pendingInjectedRelay.Sublist st.server.pendingInjectedRelay)
    (ho : st'.server.orphanedRelay ⊆ st.server.orphanedRelay) (hb : st'.batch = st.batch)
    (ha : acceptedFrames st'.past = acceptedFrames st.past)
    (hh : handledFrames st'.past = handledFrames st.past) : Handed route st' := by
  have hids : st'.server.connections.map Conn.connId = st.server.connections.map Conn.connId :=
    Rows.forall₂_map_eq hc fun hr => hr.1
  have horphans : ∀ f ∈ st'.server.orphanedRelay, f.route ≠ route :=
    fun f hf => h.orphans f (ho hf)
  refine ⟨ht, hids ▸ h.sorted, horphans, hb ▸ hids ▸ h.present, ?_⟩
  have horder := h.order
  rw [queued_route h.orphans] at horder
  rw [ha, hh, hb, queued_route horphans]
  have hwaiting := ((pending_thins hc).filter (RelayFrame.isOn route)).append
    (hi.filter (RelayFrame.isOn route))
  exact (((List.Sublist.refl _).append hwaiting).append (.refl _)).trans horder

theorem Rising.now {events : List ServerEvent} (h : Rising route events) :
    ((unhandled route events).map RelayFrame.publisherConnId).Pairwise (· ≤ ·) := by
  have hall := h events.length (Nat.le_refl _)
  rwa [List.take_length] at hall

theorem Rising.before {past events : List ServerEvent} (h : Rising route (past ++ events)) :
    Rising route past := by
  intro i hi
  have hpart := h i (by rw [List.length_append]; omega)
  rwa [List.take_append_of_le_length hi] at hpart

theorem sublist_drop_length {α : Type*} {first second all : List α}
    (h : (first ++ second).Sublist all) : second.Sublist (all.drop first.length) := by
  have hdrop := h.drop first.length
  rwa [List.drop_left] at hdrop

/-- Frames that wait come from publishers at most as far down as those under way. -/
theorem Handed.below (h : Handed route st) (hrise : Rising route st.past) {f g : RelayFrame}
    (hf : f ∈ st.server.queued) (hg : g ∈ st.batch) (hfr : f.route = route)
    (hgr : g.route = route) : f.publisherConnId ≤ g.publisherConnId := by
  have hleft := sublist_drop_length (List.append_assoc _ _ _ ▸ h.order)
  have hpairs := List.Pairwise.sublist (hleft.map RelayFrame.publisherConnId) hrise.now
  rw [List.map_append, List.pairwise_append] at hpairs
  refine hpairs.2.2 _ (List.mem_map.mpr ⟨f, ?_, rfl⟩) _ (List.mem_map.mpr ⟨g, ?_, rfl⟩)
  · exact List.mem_filter.mpr ⟨hf, decide_eq_true hfr⟩
  · exact List.mem_filter.mpr ⟨hg, decide_eq_true hgr⟩

/-- One connection loses some frames and takes in others of its own. -/
theorem Handed.grow (h : Handed route st) {i : Nat} {c d : Conn} (routes : Routes)
    {kept new : List RelayFrame} (hc : st.server.connections[i]? = some c)
    (hd : d.pendingRelay = kept ++ new) (hkept : kept.Sublist c.pendingRelay)
    (hlast : new.filter (RelayFrame.isOn route) ≠ [] →
      ∀ f ∈ st.server.queued, f.route = route → f.publisherConnId ≤ c.connId) :
    ((st.server.put i ⟨d, routes⟩).queued.filter (RelayFrame.isOn route)).Sublist
      (st.server.queued.filter (RelayFrame.isOn route) ++ new.filter (RelayFrame.isOn route)) := by
  have hmem := List.mem_of_getElem? hc
  have hlocal := pending_grows h.sorted h.traced.mine hc hd hkept fun hnew f hf =>
    hlast hnew f (List.mem_append_left _ (List.mem_append_right _ hf))
  have hafter := queued_route (s := st.server.put i ⟨d, routes⟩) h.orphans
  rw [hafter, queued_route h.orphans, List.append_assoc]
  by_cases hnew : new.filter (RelayFrame.isOn route) = []
  · rw [hnew, List.append_nil] at hlocal ⊢
    exact hlocal.append (.refl _)
  · have hnone : st.server.pendingInjectedRelay.filter (RelayFrame.isOn route) = [] := by
      rw [List.filter_eq_nil_iff]
      intro f hf hon
      have hle := hlast hnew f (List.mem_append_right _ hf) (of_decide_eq_true hon)
      have hbelow := (h.traced.tenancy.below c hmem).2
      have hrange := h.traced.tenancy.range.2
      have hsocket := socket_id_inside (d := f.publisherConnId) (by omega)
      rw [h.traced.injected f hf] at hsocket
      cases hsocket
    have hsame : (st.server.put i ⟨d, routes⟩).pendingInjectedRelay =
        st.server.pendingInjectedRelay := rfl
    rw [hsame, hnone, List.append_nil, List.nil_append]
    exact hlocal

/-- An act may only add frames of the publisher that is last in order. -/
theorem Handed.act (h : Handed route st) {i : Nat} {c : Conn} {act : ConnAct}
    (hc : st.server.connections[i]? = some c) (ha : act ≠ .detach) (hb : st.batch = [])
    (hrise : Rising route (st.past ++
      (Session.perform cfg.codec act ⟨c, st.server.activePublishRoutes⟩).2.2))
    (ht : Traced { st with
      server := st.server.put i
        (Session.perform cfg.codec act ⟨c, st.server.activePublishRoutes⟩).2.1
      past := st.past ++
        (Session.perform cfg.codec act ⟨c, st.server.activePublishRoutes⟩).2.2 }) :
    Handed route { st with
      server := st.server.put i
        (Session.perform cfg.codec act ⟨c, st.server.activePublishRoutes⟩).2.1
      past := st.past ++
        (Session.perform cfg.codec act ⟨c, st.server.activePublishRoutes⟩).2.2 } := by
  have hqueued := turn_queued cfg.codec (s := ⟨c, st.server.activePublishRoutes⟩) act ha
    (h.traced.tenancy.tenants c (List.mem_of_getElem? hc)).seated
  have htrace : (Session.perform cfg.codec act ⟨c, st.server.activePublishRoutes⟩).2.2 =
      [.turn c act (Session.perform cfg.codec act ⟨c, st.server.activePublishRoutes⟩).2.1.conn] :=
    rfl
  rw [htrace] at hrise ht ⊢
  generalize (Session.perform cfg.codec act ⟨c, st.server.activePublishRoutes⟩).2.1 = t
    at hrise ht hqueued
  obtain ⟨d, routes⟩ := t
  obtain ⟨kept, hkept, hd⟩ := hqueued.order
  have hnew : ∀ f ∈ d.pendingRelay.drop c.pendingRelay.length, f.publisherConnId = c.connId :=
    fun f hf => (hqueued.live f hf).1
  have haccepted : ServerEvent.accepted (.turn c act d) =
      d.pendingRelay.drop c.pendingRelay.length := rfl
  generalize d.pendingRelay.drop c.pendingRelay.length = new at hd hnew haccepted
  have hhandled : handledFrames (st.past ++ [.turn c act d]) = handledFrames st.past := by
    simp [handledFrames, ServerEvent.relayed]
  have horder := h.order
  rw [hb, List.filter_nil, List.append_nil] at horder
  have hpairs := hrise.now
  unfold unhandled at hpairs
  rw [accepted_append, haccepted, List.filter_append, hhandled] at hpairs
  have hleft := sublist_drop_length
    (List.append_assoc _ _ _ ▸ horder.append (.refl (new.filter (RelayFrame.isOn route))))
  replace hpairs := List.Pairwise.sublist (hleft.map RelayFrame.publisherConnId) hpairs
  have hids : (st.server.put i ⟨d, routes⟩).connections.map Conn.connId =
      st.server.connections.map Conn.connId := conn_ids_set hc hqueued.connId
  have hwaiting := h.grow routes hc hd hkept fun hsome f hf hon => by
    obtain ⟨g, hg⟩ := List.exists_mem_of_ne_nil _ hsome
    rw [List.map_append, List.pairwise_append] at hpairs
    have hle := hpairs.2.2 f.publisherConnId
      (List.mem_map.mpr ⟨f, List.mem_filter.mpr ⟨hf, decide_eq_true hon⟩, rfl⟩)
      g.publisherConnId (List.mem_map.mpr ⟨g, hg, rfl⟩)
    rwa [hnew g (List.mem_filter.mp hg).1] at hle
  refine ⟨ht, hids ▸ h.sorted, h.orphans, by simp [hb], ?_⟩
  dsimp only
  rw [hb, accepted_append, haccepted, List.filter_append, List.filter_nil, List.append_nil]
  rw [hhandled]
  refine ((List.Sublist.refl _).append hwaiting).trans ?_
  rw [← List.append_assoc]
  exact horder.append (.refl _)

/-- A frame that goes back is in front of its publisher's others. -/
theorem Handed.requeue (h : Handed route st) {frame : RelayFrame} {rest : List RelayFrame}
    (hb : st.batch = frame :: rest) (hrise : Rising route st.past)
    (ht : Traced { st with server := st.server.requeueRelayFrame frame, batch := rest }) :
    Handed route { st with server := st.server.requeueRelayFrame frame, batch := rest } := by
  have hpresent : ∀ f ∈ rest, f.route = route → isExternalPublisherId f.publisherConnId = true ∨
      f.publisherConnId ∈ st.server.connections.map Conn.connId :=
    fun f hf => h.present f (hb ▸ List.mem_cons_of_mem frame hf)
  have horder := h.order
  rw [hb, ← List.singleton_append, List.filter_append, ← List.append_assoc] at horder
  cases hext : isExternalPublisherId frame.publisherConnId with
  | true =>
    rw [requeue_external hext] at ht ⊢
    refine ⟨ht, h.sorted, h.orphans, hpresent, ?_⟩
    simpa only [Server.queued, List.filter_append, List.append_assoc] using horder
  | false =>
    by_cases hmem : frame.publisherConnId ∈ st.server.connections.map Conn.connId
    · obtain ⟨i, c, hc, hid, heq⟩ := requeue_row hext hmem
      rw [heq] at ht ⊢
      have hids : (st.server.put i ⟨{ c with pendingRelay := c.pendingRelay ++ [frame] },
          st.server.activePublishRoutes⟩).connections.map Conn.connId =
          st.server.connections.map Conn.connId := conn_ids_set hc rfl
      refine ⟨ht, hids ▸ h.sorted, h.orphans, hids ▸ hpresent, ?_⟩
      have hwaiting := h.grow (d := { c with pendingRelay := c.pendingRelay ++ [frame] })
        st.server.activePublishRoutes hc rfl (.refl _) fun hsome f hf hon => by
          have hframe : frame.route = route := by
            by_contra hne
            exact hsome (by simp [not_on hne])
          rw [hid]
          exact h.below hrise hf (hb ▸ List.mem_cons_self) hon hframe
      refine (((List.Sublist.refl _).append hwaiting).append (.refl _)).trans ?_
      rw [← List.append_assoc]
      exact horder
    · have hne : frame.route ≠ route := fun hon =>
        (h.present frame (hb ▸ List.mem_cons_self) hon).elim (by simp [hext]) hmem
      rw [requeue_gone hext hmem] at ht ⊢
      have horphans : ∀ f ∈ (st.server.pushOrphanedRelay frame).orphanedRelay, f.route ≠ route := by
        intro f hf
        rcases push_orphan_mem hf with hf | rfl
        · exact h.orphans f hf
        · exact hne
      obtain ⟨orphaned, hsame⟩ := push_orphan_same st.server frame
      rw [hsame] at ht horphans ⊢
      refine ⟨ht, h.sorted, horphans, hpresent, ?_⟩
      dsimp only
      rw [queued_route h.orphans, List.filter_singleton, not_on hne] at horder
      rw [queued_route horphans]
      simpa using horder

theorem Handed.take (h : Handed route st) (hb : st.batch = [])
    (ht : Traced { st with
      server := st.server.buildRelayFrameBatch.2, batch := st.server.buildRelayFrameBatch.1 }) :
    Handed route { st with
      server := st.server.buildRelayFrameBatch.2, batch := st.server.buildRelayFrameBatch.1 } := by
  have hids : st.server.buildRelayFrameBatch.2.connections.map Conn.connId =
      st.server.connections.map Conn.connId :=
    Rows.forall₂_map_eq (take_rows st.server) fun hr => hr.1
  refine ⟨ht, hids ▸ h.sorted, nofun, fun f hf hon => ?_, ?_⟩
  · dsimp only
    rw [hids]
    rcases mem_queued.mp (mem_batch.mp hf) with horphan | ⟨c, hc, hfc⟩ | hinjected
    · exact absurd hon (h.orphans f horphan)
    · exact .inr (List.mem_map.mpr ⟨c, hc, (h.traced.mine c hc f hfc).symm⟩)
    · exact .inl (h.traced.injected f hinjected)
  · have horder := h.order
    rw [hb, List.filter_nil, List.append_nil] at horder
    dsimp only
    rw [take_queued, route_batch, List.filter_nil, List.append_nil]
    exact horder

/-- The frame handled next is the oldest of its route. -/
theorem Handed.handle (h : Handed route st) {frame : RelayFrame} {rest : List RelayFrame}
    {connections : List Conn} {cache : CacheTable} {events : List ServerEvent}
    (hb : st.batch = frame :: rest) (hq : st.server.queued = [])
    (ho : Offers cfg.codec frame st.server.connections connections events)
    (ht : Traced
      { server := { st.server with connections, cache }
        batch := rest
        past := st.past ++ .handled frame st.server.cache cache :: events }) :
    Handed route
      { server := { st.server with connections, cache }
        batch := rest
        past := st.past ++ .handled frame st.server.cache cache :: events } := by
  have hrows : List.Forall₂ SameQueue st.server.connections connections :=
    ho.aside.imp fun _ _ ha => same_queue_unseen ha.unseen
  have hids : connections.map Conn.connId = st.server.connections.map Conn.connId :=
    Rows.forall₂_map_eq hrows fun hs => hs.1
  obtain ⟨haccepted, hrelayed⟩ := offers_silent ho
  have hqueued : Server.queued { st.server with connections, cache } = [] := by
    unfold Server.queued at hq ⊢
    rw [pending_same hrows]
    exact hq
  refine ⟨ht, hids ▸ h.sorted, h.orphans, ?_, ?_⟩
  · intro f hf hon
    dsimp only
    rw [hids]
    exact h.present f (hb ▸ List.mem_cons_of_mem frame hf) hon
  · have horder := h.order
    rw [hb, hq] at horder
    dsimp only
    rw [hqueued]
    simp only [acceptedFrames, handledFrames, List.flatMap_append, List.flatMap_cons,
      ServerEvent.accepted, ServerEvent.relayed, haccepted, hrelayed, List.append_nil,
      List.filter_nil, List.filter_append, List.append_assoc] at horder ⊢
    rw [← List.filter_append, List.singleton_append]
    exact horder

/-- Who is removed is no publisher of the route. -/
theorem Handed.remove (h : Handed route st) {i : Nat} {c : Conn}
    (hc : st.server.connections[i]? = some c) (hb : st.batch = [])
    (hstay : Staying route (st.past ++ [.closed c.connId]))
    (ht : Traced { st with
      server := (Pass.removeOne { server := st.server } i).server
      past := st.past ++ [.closed c.connId] }) :
    Handed route { st with
      server := (Pass.removeOne { server := st.server } i).server
      past := st.past ++ [.closed c.connId] } := by
  have hmem := List.mem_of_getElem? hc
  have hnone : ∀ f ∈ c.pendingRelay, f.route ≠ route := by
    intro f hf hon
    have hqueued : f ∈ st.server.queued := mem_queued.mpr (.inr (.inl ⟨c, hmem, hf⟩))
    have haccepted : f ∈ (acceptedFrames st.past).filter (RelayFrame.isOn route) := by
      refine h.order.subset (List.mem_append_left _ (List.mem_append_right _ ?_))
      exact List.mem_filter.mpr ⟨hqueued, decide_eq_true hon⟩
    refine hstay f ?_ hon (by simp [closedConns, h.traced.mine c hmem f hf])
    rw [accepted_append]
    exact List.mem_append_left _ (List.mem_filter.mp haccepted).1
  have horphans : ∀ f ∈ (Pass.removeOne { server := st.server } i).server.orphanedRelay,
      f.route ≠ route := by
    intro f hf
    exact (remove_orphan hc hf).elim (h.orphans f) (hnone f)
  obtain ⟨orphaned, heq⟩ := remove_server hc
  rw [heq] at ht horphans ⊢
  have hsub := List.eraseIdx_sublist st.server.connections i
  refine ⟨ht, h.sorted.sublist (hsub.map _), horphans, by simp [hb], ?_⟩
  have horder := h.order
  rw [queued_route h.orphans, hb, List.filter_nil, List.append_nil] at horder
  dsimp only
  rw [queued_route horphans, accepted_append, hb, List.filter_nil, List.append_nil]
  have hleft := (hsub.flatMap Conn.pendingRelay).filter (RelayFrame.isOn route)
  have hwaiting := hleft.append (List.Sublist.refl
    (st.server.pendingInjectedRelay.filter (RelayFrame.isOn route)))
  have hless := (List.Sublist.refl ((handledFrames st.past).filter
    (RelayFrame.isOn route))).append hwaiting
  simpa [handledFrames, ServerEvent.relayed, ServerEvent.accepted] using hless.trans horder

theorem Handed.accept (h : Handed route st) (now : Nat) (transport : Transport) (fd : Nat)
    (ht : Traced { st with server := st.server.addConnection now transport fd }) :
    Handed route { st with server := st.server.addConnection now transport fd } := by
  unfold Server.addConnection at ht ⊢
  split
  · exact h
  · rename_i hfree
    rw [if_neg hfree] at ht
    refine ⟨ht, ?_, h.orphans, fun f hf hon => (h.present f hf hon).imp_right fun hmem => ?_, ?_⟩
    · dsimp only
      rw [List.map_append, List.pairwise_append]
      refine ⟨h.sorted, List.pairwise_singleton _ _, fun a ha b hb => ?_⟩
      obtain ⟨c, hc, rfl⟩ := List.mem_map.mp ha
      rw [List.mem_singleton.mp hb]
      exact (h.traced.tenancy.below c hc).2
    · dsimp only
      rw [List.map_append]
      exact List.mem_append_left _ hmem
    · simpa [Server.queued] using h.order

theorem Handed.inject (h : Handed route st) {now : Nat} {key : RouteKey} {frameType : FrameType}
    {timestamp : UInt32} {payload : List UInt8} {s : Server} (hb : st.batch = [])
    (hs : st.server.injectRelayFrame cfg.codec now key frameType timestamp payload = .ok s)
    (ht : Traced { st with
      server := s
      past := st.past ++ (s.pendingInjectedRelay.drop st.server.pendingInjectedRelay.length).map
        ServerEvent.injected }) :
    Handed route { st with
      server := s
      past := st.past ++ (s.pendingInjectedRelay.drop st.server.pendingInjectedRelay.length).map
        ServerEvent.injected } := by
  obtain ⟨id, t, hclaim, rfl⟩ := inject_spec hs
  obtain ⟨routes, ids, seq, rfl⟩ := claim_same hclaim
  dsimp only at ht ⊢
  rw [List.drop_left, List.map_singleton] at ht ⊢
  refine ⟨ht, h.sorted, h.orphans, by simp [hb], ?_⟩
  have horder := h.order
  rw [hb, List.filter_nil, List.append_nil] at horder
  rw [hb, accepted_append, List.filter_append, List.filter_nil, List.append_nil]
  have hmore := horder.append (List.Sublist.refl ((ServerEvent.accepted (.injected
    ⟨frameType, timestamp, payload, cfg.codec.normalize frameType payload, key.1, key.2,
      id⟩)).filter (RelayFrame.isOn route)))
  simpa [Server.queued, handledFrames, ServerEvent.accepted, ServerEvent.relayed] using hmore

theorem Staying.before {past events : List ServerEvent} (h : Staying route (past ++ events)) :
    Staying route past := by
  intro f hf hon hclosed
  refine h f ?_ hon ?_
  · unfold acceptedFrames
    rw [List.flatMap_append]
    exact List.mem_append_left _ hf
  · unfold closedConns
    rw [List.filterMap_append]
    exact List.mem_append_left _ hclosed

theorem detach_thins (c : Conn) : Thins c c.detachLostPublishRoute := by
  unfold Conn.detachLostPublishRoute
  split
  · exact .refl c
  · rename_i claimed _
    obtain ⟨hid, hrow⟩ := (evict_both_evicts { c with
      claimedPublishRoute := none
      relayEnabled := false
      pendingRelay := c.pendingRelay.filter (fun f =>
        ¬ (f.app = c.app ∧ (f.streamName = claimed ∨ f.streamName = c.relayRouteKey))) }
      claimed c.relayRouteKey).1.drops.thins
    exact ⟨hid, hrow.trans List.filter_sublist⟩

theorem Handed.drain (h : Handed route st) (i : Nat)
    (ht : Traced { st with
      server := (Server.drainOne ([], st.server) i).2
      past := st.past ++ abandonments (Server.drainOne ([], st.server) i).1 }) :
    Handed route { st with
      server := (Server.drainOne ([], st.server) i).2
      past := st.past ++ abandonments (Server.drainOne ([], st.server) i).1 } := by
  have hrows : List.Forall₂ Thins st.server.connections
      (Server.drainOne ([], st.server) i).2.connections := by
    unfold Server.drainOne
    split
    · exact Rows.forall₂_refl Thins.refl _
    · rename_i c hc
      have hcleared : Drops c { c with pendingCacheEvictions := [] } := ⟨_, _, _, .refl _, rfl⟩
      exact Rows.forall₂_set Thins.refl hc (hcleared.trans (note_all_drops _ _)).thins
  have hrest : (Server.drainOne ([], st.server) i).2.pendingInjectedRelay =
        st.server.pendingInjectedRelay ∧
      (Server.drainOne ([], st.server) i).2.orphanedRelay = st.server.orphanedRelay := by
    unfold Server.drainOne
    split <;> exact ⟨rfl, rfl⟩
  refine h.thin ht hrows (hrest.1 ▸ .refl _) (hrest.2 ▸ List.Subset.refl _) rfl ?_ ?_
  · simp [acceptedFrames, abandonments, List.flatMap_map, ServerEvent.accepted]
  · simp [handledFrames, abandonments, List.flatMap_map, ServerEvent.relayed]

/-- One step of a run in which publishers follow each other down the list and stay. -/
theorem Handed.step (h : Handed route st) (hrise : Rising route st'.past)
    (hstay : Staying route st'.past) (hs : st.Step cfg st') : Handed route st' := by
  have ht := h.traced.step hs
  have hrows := Rows.forall₂_refl Thins.refl st.server.connections
  have hsub := List.Subset.refl st.server.orphanedRelay
  have hsame := List.Sublist.refl st.server.pendingInjectedRelay
  rcases hs with (hcalm | hstir) | hreset
  · cases hcalm with
    | aside connections ha =>
      exact h.thin ht (ha.imp fun _ _ ha => (same_queue_unseen ha.unseen).thins) hsame hsub rfl rfl
        rfl
    | replay i c hc =>
      refine h.thin ht (Rows.forall₂_set Thins.refl hc
        (same_queue_unseen (replay_unseen _ _ c)).thins) hsame hsub rfl ?_ ?_
      · simp [acceptedFrames, Conn.replayed, List.flatMap_map, ServerEvent.accepted]
      · simp [handledFrames, Conn.replayed, List.flatMap_map, ServerEvent.relayed]
    | drain i _ => exact h.drain i ht
    | trim abandoned _ _ =>
      refine h.thin ht (List.forall₂_map_right_iff.mpr (List.forall₂_same.mpr fun c _ => ?_)) hsame
        hsub rfl rfl rfl
      split
      · exact ⟨rfl, List.filter_sublist⟩
      · exact .refl c
    | take hb _ => exact h.take hb ht
    | handle frame rest abandoned connections cache events hb hq _ ho _ => exact h.handle hb hq ho ht
    | requeue frame rest hb => exact h.requeue hb hrise ht
  · cases hstir with
    | act i c act hc ha hb => exact h.act hc ha hb hrise ht
    | detach i c claimed hc _ _ _ =>
      refine h.thin ht (Rows.forall₂_set Thins.refl hc (detach_thins c)) hsame hsub rfl ?_ ?_
      · rw [accepted_append, ServerEvent.accepted,
          List.drop_eq_nil_of_le (detach_thins c).2.length_le, List.append_nil]
      · simp [handledFrames, ServerEvent.relayed]
    | remove i c hc hb => exact h.remove hc hb hstay ht
    | vacate connId => exact h.thin ht hrows hsame hsub rfl rfl rfl
    | adjust i c c' hc hu =>
      exact h.thin ht (Rows.forall₂_set Thins.refl hc (same_queue_unseen hu).thins) hsame hsub rfl
        rfl rfl
    | accept now transport fd => exact h.accept now transport fd ht
    | inject now key frameType timestamp payload s hinject hb => exact h.inject hb hinject ht
    | release key _ =>
      obtain ⟨hc, _, ho, hi⟩ := release_injected_rest st.server key
      refine h.thin ht (hc ▸ hrows) hi (ho ▸ hsub) rfl ?_ ?_
      · simp [acceptedFrames, ServerEvent.accepted]
      · simp [handledFrames, ServerEvent.relayed]
    | forget key _ => exact h.thin ht hrows hsame hsub rfl rfl rfl
    | tune settings => exact h.thin ht hrows hsame hsub rfl rfl rfl
    | lead _ => exact h.thin ht hrows hsame hsub rfl rfl rfl
  · cases hreset with
    | ids => exact h.thin ht hrows hsame hsub rfl rfl rfl
    | stop hb =>
      obtain ⟨hc, _⟩ := stop_rest st.server
      have hqueued : st.server.stop.queued = [] := by
        unfold Server.queued
        rw [hc]
        rfl
      refine ⟨ht, by simp [hc], List.forall_mem_nil _, by simp [hb], ?_⟩
      have hleft := (List.sublist_append_left _ _).trans (List.append_assoc _ _ _ ▸ h.order)
      simpa [hqueued, hb, acceptedFrames, handledFrames, ServerEvent.accepted,
        ServerEvent.relayed] using hleft

theorem Handed.course (h : Handed route st) (hrise : Rising route st'.past)
    (hstay : Staying route st'.past) (hpath : Course cfg st st') : Handed route st' := by
  induction hpath with
  | refl => exact h
  | tail _ hstep ih =>
    obtain ⟨events, hpast⟩ := step_past hstep
    rw [hpast] at hrise hstay
    exact (ih hrise.before hstay.before).step (hpast ▸ hrise) (hpast ▸ hstay) hstep

end Steps

section Runs

/-- One publisher sends three frames and gives its route up, and another one sends one. -/
def handoverOps (first second : Nat) : List ServerOp :=
  [.accept 0 ⟨false⟩ 3, .accept 0 ⟨false⟩ 4, .accept 0 ⟨false⟩ 5,
    hears fun connId => joins ++
      if connId = first then [publishes "cam", sendsAudio, sendsAudio, sendsAudio]
      else if connId = second then []
      else [tells (.command (.play (some "cam")))],
    hears fun connId => if connId = first then [tells (.command .fcUnpublish)] else [],
    hears fun connId => if connId = second then [publishes "cam", sendsAudio] else [],
    hears fun _ => []]

def handoverRun (first second : Nat) : Server × List ServerEvent :=
  Server.run mediaConfig { settings := { maxRelaySendsPerPoll := 1 } } (handoverOps first second)

end Runs

end LibRtmp.Proofs
