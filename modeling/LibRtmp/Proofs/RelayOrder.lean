import LibRtmp.Media.InitCache
import LibRtmp.Proofs.QueueMoves
import LibRtmp.Proofs.Tenancy

namespace LibRtmp.Proofs

open Relation (ReflTransGen)

def RelayFrame.isOn (route : RouteKey) (f : RelayFrame) : Bool := decide (f.route = route)

def RelayFrame.isOf (publisher : Nat) (route : RouteKey) (f : RelayFrame) : Bool :=
  f.publisherConnId == publisher && decide (f.route = route)

/-- No connection closes and no route is abandoned, displaced or released. -/
def Undisturbed : ServerEvent → Prop
  | .turn _ act after => act ≠ .detach ∧ after.pendingCacheEvictions = []
  | .abandoned _ _ => False
  | .closed _ => False
  | .released _ => False
  | .stopped => False
  | _ => True

def StartsOver : ServerEvent → Prop
  | .turn before act _ => Republishes before act
  | _ => False

def Steady (e : ServerEvent) : Prop := Undisturbed e ∧ ¬ StartsOver e

section Decidable

instance (act : ConnAct) : Decidable (act = .detach) :=
  match act with
  | .inbound _ | .complete _ _ _ _ | .inject _ _ _ _ | .reap _ _ => .isFalse nofun
  | .detach => .isTrue rfl

instance (e : ServerEvent) : Decidable (Undisturbed e) :=
  match e with
  | .turn _ act after =>
    inferInstanceAs (Decidable (act ≠ .detach ∧ after.pendingCacheEvictions = []))
  | .abandoned _ _ | .closed _ | .released _ | .stopped => inferInstanceAs (Decidable False)
  | .injected _ | .replayed _ _ | .handled _ _ _ | .delivered _ _ =>
    inferInstanceAs (Decidable True)

instance (e : ServerEvent) : Decidable (StartsOver e) :=
  match e with
  | .turn before act _ => inferInstanceAs (Decidable (Republishes before act))
  | .abandoned _ _ | .closed _ | .released _ | .stopped | .injected _ | .replayed _ _
  | .handled _ _ _ | .delivered _ _ => inferInstanceAs (Decidable False)

instance (e : ServerEvent) : Decidable (Steady e) := inferInstanceAs (Decidable (_ ∧ _))

end Decidable

section Queues

variable {connections : List Conn} {publisher : Nat} {route : RouteKey}

def OwnFrames (connections : List Conn) : Prop :=
  ∀ c ∈ connections, ∀ f ∈ c.pendingRelay, f.publisherConnId = c.connId

theorem filter_others {frames : List RelayFrame} {owner : Nat}
    (h : ∀ f ∈ frames, f.publisherConnId = owner) (hne : owner ≠ publisher) :
    frames.filter (RelayFrame.isOf publisher route) = [] := by
  rw [List.filter_eq_nil_iff]
  intro f hf
  simp [RelayFrame.isOf, h f hf, hne]

/-- The queue of one connection has all waiting frames of its id. -/
theorem filter_pending {c : Conn} (hids : (connections.map Conn.connId).Nodup)
    (hmine : OwnFrames connections) (hc : c ∈ connections) (route : RouteKey) :
    (connections.flatMap Conn.pendingRelay).filter (RelayFrame.isOf c.connId route) =
      c.pendingRelay.filter (RelayFrame.isOf c.connId route) := by
  induction connections with
  | nil => cases hc
  | cons d connections ih =>
    rw [List.flatMap_cons, List.filter_append]
    have hnodup := List.nodup_cons.mp hids
    have hrest : OwnFrames connections := fun e he => hmine e (List.mem_cons_of_mem _ he)
    rcases List.mem_cons.mp hc with rfl | hc
    · have hnone : (connections.flatMap Conn.pendingRelay).filter
          (RelayFrame.isOf c.connId route) = [] := by
        rw [List.filter_flatMap, List.flatMap_eq_nil_iff]
        intro e he
        refine filter_others (hrest e he) fun hid => hnodup.1 ?_
        exact hid ▸ List.mem_map.mpr ⟨e, he, rfl⟩
      rw [hnone, List.append_nil]
    · have hne : d.connId ≠ c.connId := by
        intro hid
        exact hnodup.1 (hid ▸ List.mem_map.mpr ⟨c, hc, rfl⟩)
      rw [filter_others (hmine d List.mem_cons_self) hne, List.nil_append]
      exact ih hnodup.2 hrest hc

/-- Changing one queue leaves the frames of other ids alone. -/
theorem filter_set (route : RouteKey) {i : Nat} {c d : Conn} (hc : connections[i]? = some c)
    (hmine : ∀ f ∈ c.pendingRelay, f.publisherConnId = c.connId)
    (hmine' : ∀ f ∈ d.pendingRelay, f.publisherConnId = c.connId) (hne : c.connId ≠ publisher) :
    ((connections.set i d).flatMap Conn.pendingRelay).filter (RelayFrame.isOf publisher route) =
      (connections.flatMap Conn.pendingRelay).filter (RelayFrame.isOf publisher route) := by
  have hrows : List.Forall₂ (fun a b : Conn =>
      b.pendingRelay.filter (RelayFrame.isOf publisher route) =
        a.pendingRelay.filter (RelayFrame.isOf publisher route)) connections
      (connections.set i d) := by
    refine Rows.forall₂_set (fun _ => rfl) hc ?_
    rw [filter_others hmine hne, filter_others hmine' hne]
  rw [List.filter_flatMap, List.filter_flatMap, List.flatMap_def, List.flatMap_def,
    Rows.forall₂_map_eq hrows fun h => h]

theorem own_frames_set {i : Nat} {c d : Conn} (h : OwnFrames connections)
    (hc : connections[i]? = some c) (hid : d.connId = c.connId)
    (hmine : ∀ f ∈ d.pendingRelay, f ∈ c.pendingRelay ∨ f.publisherConnId = c.connId) :
    OwnFrames (connections.set i d) := by
  intro e he f hf
  obtain ⟨j, hj⟩ := List.mem_iff_getElem?.mp he
  rw [List.getElem?_set] at hj
  split at hj
  · split at hj
    · cases hj
      rw [hid]
      exact (hmine f hf).elim (h c (List.mem_of_getElem? hc) f) id
    · cases hj
  · exact h e (List.mem_of_getElem? hj) f hf

/-- Merging keeps the frames of a route in order. -/
theorem route_round_robin (queues : List (List RelayFrame)) (start : Nat) :
    (roundRobinRelayQueues queues start).filter (RelayFrame.isOn route) =
      queues.flatten.filter (RelayFrame.isOn route) :=
  RoundRobin.filter_merge_group queues.flatten start route

theorem route_merge_injected (locals injected : List RelayFrame) (injectFirst : Bool) :
    (mergeLocalAndInjectedByRoute locals injected injectFirst).filter (RelayFrame.isOn route) =
      (locals ++ injected).filter (RelayFrame.isOn route) :=
  (route_round_robin _ _).trans (RoundRobin.filter_group (locals ++ injected) route)

/-- The queues that are not taken into the batch are empty. -/
theorem taken_flatten (connections : List Conn) :
    (((connections.filter Server.relays).map Conn.pendingRelay).filter
      (fun q => !q.isEmpty)).flatten = connections.flatMap Conn.pendingRelay := by
  induction connections with
  | nil => rfl
  | cons c connections ih =>
    rw [List.flatMap_cons, ← ih]
    cases hq : c.pendingRelay with
    | nil => by_cases hr : Server.relays c <;> simp [hr, hq]
    | cons f frames =>
      have hr : Server.relays c = true := by simp [Server.relays, hq]
      simp [hr, hq]

/-- A batch has the waiting frames of a route in order. -/
theorem route_batch (s : Server) :
    s.buildRelayFrameBatch.1.filter (RelayFrame.isOn route) =
      s.queued.filter (RelayFrame.isOn route) := by
  unfold Server.buildRelayFrameBatch Server.queued
  dsimp only
  rw [route_merge_injected, List.filter_append, List.filter_append, route_round_robin,
    taken_flatten, List.filter_append, List.filter_append]

theorem filter_is_of (frames : List RelayFrame) :
    frames.filter (RelayFrame.isOf publisher route) =
      (frames.filter (RelayFrame.isOn route)).filter (fun f => f.publisherConnId == publisher) := by
  rw [List.filter_filter]
  rfl

/-- So it has those of a publisher on a route. -/
theorem filter_batch (s : Server) :
    s.buildRelayFrameBatch.1.filter (RelayFrame.isOf publisher route) =
      s.queued.filter (RelayFrame.isOf publisher route) := by
  rw [filter_is_of, route_batch, ← filter_is_of]

end Queues

def acceptedFrames (events : List ServerEvent) : List RelayFrame :=
  events.flatMap ServerEvent.accepted

def handledFrames (events : List ServerEvent) : List RelayFrame :=
  events.flatMap ServerEvent.relayed

structure Orderly (st : Stage) : Prop where
  tenancy : Tenancy st.server
  clear : ∀ c ∈ st.server.connections,
    c.pendingCacheEvictions = [] ∧ c.abandonedRelayRoutes = []
  mine : OwnFrames st.server.connections
  injected : ∀ f ∈ st.server.pendingInjectedRelay, isExternalPublisherId f.publisherConnId = true
  orphans : st.server.orphanedRelay = []
  batch : ∀ f ∈ st.batch, isExternalPublisherId f.publisherConnId = true ∨
    f.publisherConnId ∈ st.server.connections.map Conn.connId
  balance : ∀ publisher route,
    (acceptedFrames st.past).filter (RelayFrame.isOf publisher route) =
      (handledFrames st.past).filter (RelayFrame.isOf publisher route) ++
        st.server.queued.filter (RelayFrame.isOf publisher route) ++
        st.batch.filter (RelayFrame.isOf publisher route)

section Steps

variable {cfg : CacheConfig} {st st' : Stage}

def SameQueue (c d : Conn) : Prop :=
  d.connId = c.connId ∧ d.pendingRelay = c.pendingRelay ∧
    d.pendingCacheEvictions = c.pendingCacheEvictions ∧
    d.abandonedRelayRoutes = c.abandonedRelayRoutes

theorem SameQueue.refl (c : Conn) : SameQueue c c := ⟨rfl, rfl, rfl, rfl⟩

theorem same_queue_unseen {c d : Conn} (h : Unseen c d) : SameQueue c d :=
  ⟨h.conn_id, congrArg Ledger.relay (h ∅), congrArg Ledger.evictions (h ∅),
    congrArg Ledger.abandoned (h ∅)⟩

theorem pending_same {connections connections' : List Conn}
    (h : List.Forall₂ SameQueue connections connections') :
    connections'.flatMap Conn.pendingRelay = connections.flatMap Conn.pendingRelay := by
  rw [List.flatMap_def, List.flatMap_def, Rows.forall₂_map_eq h fun hs => hs.2.1]

/-- A step that leaves all queues as they are. -/
theorem Orderly.same (h : Orderly st) (ht : Tenancy st'.server)
    (hc : List.Forall₂ SameQueue st.server.connections st'.server.connections)
    (hi : st'.server.pendingInjectedRelay = st.server.pendingInjectedRelay)
    (ho : st'.server.orphanedRelay = st.server.orphanedRelay) (hb : st'.batch = st.batch)
    (ha : acceptedFrames st'.past = acceptedFrames st.past)
    (hh : handledFrames st'.past = handledFrames st.past) : Orderly st' := by
  refine ⟨ht, ?_, ?_, hi ▸ h.injected, ho.trans h.orphans, ?_, ?_⟩
  · intro d hd
    obtain ⟨c, hmem, hs⟩ := Rows.forall₂_mem_back hc hd
    rw [hs.2.2.1, hs.2.2.2]
    exact h.clear c hmem
  · intro d hd f hf
    obtain ⟨c, hmem, hs⟩ := Rows.forall₂_mem_back hc hd
    rw [hs.1]
    exact h.mine c hmem f (hs.2.1 ▸ hf)
  · rw [hb, Rows.forall₂_map_eq hc fun hs => hs.1]
    exact h.batch
  · intro publisher route
    unfold Server.queued
    rw [ha, hh, hb, hi, ho, pending_same hc]
    exact h.balance publisher route

theorem accepted_append (events : List ServerEvent) (e : ServerEvent) :
    acceptedFrames (events ++ [e]) = acceptedFrames events ++ e.accepted := by
  simp [acceptedFrames]

/-- No injected frame is of a connection. -/
theorem Orderly.injected_filter (h : Orderly st) {c : Conn} (hc : c ∈ st.server.connections)
    (route : RouteKey) :
    st.server.pendingInjectedRelay.filter (RelayFrame.isOf c.connId route) = [] := by
  rw [List.filter_eq_nil_iff]
  intro f hf hof
  have hext := h.injected f hf
  rw [RelayFrame.isOf, Bool.and_eq_true, beq_iff_eq] at hof
  rw [hof.1, h.tenancy.socket hc] at hext
  cases hext

/-- One connection takes in frames of its own at the end of its queue. -/
theorem Orderly.queued_append (h : Orderly st) {i : Nat} {c d : Conn} (routes : Routes)
    {frames : List RelayFrame} (hc : st.server.connections[i]? = some c)
    (hid : d.connId = c.connId) (hrelay : d.pendingRelay = c.pendingRelay ++ frames)
    (hmine : ∀ f ∈ frames, f.publisherConnId = c.connId) (publisher : Nat) (route : RouteKey) :
    (st.server.put i ⟨d, routes⟩).queued.filter (RelayFrame.isOf publisher route) =
      st.server.queued.filter (RelayFrame.isOf publisher route) ++
        frames.filter (RelayFrame.isOf publisher route) := by
  have hmem := List.mem_of_getElem? hc
  have hown := h.mine c hmem
  have hown' : ∀ f ∈ d.pendingRelay, f.publisherConnId = c.connId := by
    intro f hf
    rw [hrelay] at hf
    exact (List.mem_append.mp hf).elim (hown f) (hmine f)
  by_cases hp : c.connId = publisher
  · subst hp
    have hset : OwnFrames (st.server.connections.set i d) :=
      own_frames_set h.mine hc hid fun f hf => .inr (hown' f hf)
    have hmem' : d ∈ st.server.connections.set i d :=
      List.mem_iff_getElem?.mpr ⟨i, List.getElem?_set_self (List.getElem?_eq_some_iff.mp hc).1⟩
    have hbefore := filter_pending h.tenancy.ids h.mine hmem route
    have hafter := filter_pending ((conn_ids_set hc hid).symm ▸ h.tenancy.ids) hset hmem' route
    rw [hid] at hafter
    unfold Server.queued Server.put
    simp only [List.filter_append, h.orphans, h.injected_filter hmem, hbefore, hafter, hrelay,
      List.nil_append, List.append_nil]
  · have hset := filter_set route hc hown hown' hp
    have hnone : frames.filter (RelayFrame.isOf publisher route) = [] := filter_others hmine hp
    unfold Server.queued Server.put
    simp only [List.filter_append, hset, hnone, List.append_nil]

theorem clear_set {connections : List Conn} {i : Nat} {d : Conn}
    (h : ∀ c ∈ connections, c.pendingCacheEvictions = [] ∧ c.abandonedRelayRoutes = [])
    (hd : d.pendingCacheEvictions = [] ∧ d.abandonedRelayRoutes = []) :
    ∀ c ∈ connections.set i d, c.pendingCacheEvictions = [] ∧ c.abandonedRelayRoutes = [] := by
  intro c hc
  rcases List.mem_or_eq_of_mem_set hc with hmem | rfl
  · exact h c hmem
  · exact hd

/-- A step that only adds frames of a connection to its queue. -/
theorem Orderly.intake (h : Orderly st) {i : Nat} {c d : Conn} {routes : Routes}
    {frames batch : List RelayFrame} {past : List ServerEvent}
    (ht : Tenancy (st.server.put i ⟨d, routes⟩)) (hc : st.server.connections[i]? = some c)
    (hid : d.connId = c.connId)
    (hclear : d.pendingCacheEvictions = [] ∧ d.abandonedRelayRoutes = [])
    (hrelay : d.pendingRelay = c.pendingRelay ++ frames)
    (hmine : ∀ f ∈ frames, f.publisherConnId = c.connId) (hbatch : batch ⊆ st.batch)
    (hbalance : ∀ publisher route,
      (acceptedFrames past).filter (RelayFrame.isOf publisher route) =
        (handledFrames past).filter (RelayFrame.isOf publisher route) ++
          (st.server.queued.filter (RelayFrame.isOf publisher route) ++
            frames.filter (RelayFrame.isOf publisher route)) ++
          batch.filter (RelayFrame.isOf publisher route)) :
    Orderly ⟨st.server.put i ⟨d, routes⟩, batch, past⟩ := by
  refine ⟨ht, clear_set h.clear hclear, ?_, h.injected, h.orphans, ?_, ?_⟩
  · refine own_frames_set h.mine hc hid fun f hf => ?_
    rw [hrelay] at hf
    exact (List.mem_append.mp hf).imp_right (hmine f)
  · intro f hf
    have hids : (st.server.put i ⟨d, routes⟩).connections.map Conn.connId =
        st.server.connections.map Conn.connId := conn_ids_set hc hid
    rw [hids]
    exact h.batch f (hbatch hf)
  · intro publisher route
    rw [h.queued_append routes hc hid hrelay hmine]
    exact hbalance publisher route

/-- Accepted frames come behind those that wait. -/
theorem Orderly.act (h : Orderly st) {i : Nat} {c : Conn} {act : ConnAct}
    (hc : st.server.connections[i]? = some c) (ha : act ≠ .detach) (hb : st.batch = [])
    (hs : ∀ e ∈ (Session.perform cfg.codec act ⟨c, st.server.activePublishRoutes⟩).2.2, Steady e)
    (ht : Tenancy (st.server.put i
      (Session.perform cfg.codec act ⟨c, st.server.activePublishRoutes⟩).2.1)) :
    Orderly { st with
      server := st.server.put i
        (Session.perform cfg.codec act ⟨c, st.server.activePublishRoutes⟩).2.1
      past := st.past ++
        (Session.perform cfg.codec act ⟨c, st.server.activePublishRoutes⟩).2.2 } := by
  have hmem := List.mem_of_getElem? hc
  have hqueued := turn_queued cfg.codec (s := ⟨c, st.server.activePublishRoutes⟩) act ha
    (h.tenancy.tenants c hmem).seated
  have htrace : (Session.perform cfg.codec act ⟨c, st.server.activePublishRoutes⟩).2.2 =
      [.turn c act (Session.perform cfg.codec act ⟨c, st.server.activePublishRoutes⟩).2.1.conn] :=
    rfl
  rw [htrace] at hs ⊢
  generalize (Session.perform cfg.codec act ⟨c, st.server.activePublishRoutes⟩).2.1 = t
    at hs ht hqueued
  obtain ⟨d, routes⟩ := t
  obtain ⟨⟨_, hevictions⟩, hkeeps⟩ := hs _ (List.mem_singleton.mpr rfl)
  obtain ⟨habandoned, frames, hrelay⟩ := hqueued.kept hkeeps hevictions
  have haccepted : ServerEvent.accepted (.turn c act d) = frames := by
    simp only [ServerEvent.accepted]
    rw [hrelay, List.drop_left]
  have hframes : ∀ f ∈ frames, f.publisherConnId = c.connId := by
    intro f hf
    refine (hqueued.live f ?_).1
    rw [hrelay, List.drop_left]
    exact hf
  have habandoned : d.abandonedRelayRoutes = [] := by
    rw [(h.clear c hmem).2] at habandoned
    exact List.eq_nil_of_subset_nil habandoned
  refine h.intake ht hc hqueued.connId ⟨hevictions, habandoned⟩ hrelay hframes (fun _ hf => hf) ?_
  intro publisher route
  have hbalance := h.balance publisher route
  rw [hb] at hbalance ⊢
  rw [accepted_append, haccepted, List.filter_append, hbalance]
  simp [handledFrames, ServerEvent.relayed]

theorem requeue_external {s : Server} {frame : RelayFrame}
    (h : isExternalPublisherId frame.publisherConnId = true) :
    s.requeueRelayFrame frame =
      { s with pendingInjectedRelay := s.pendingInjectedRelay ++ [frame] } := by
  unfold Server.requeueRelayFrame
  rw [if_pos h]

/-- A frame of a socket publisher goes back to a connection or to the orphans. -/
theorem requeue_socket {s : Server} {frame : RelayFrame}
    (h : isExternalPublisherId frame.publisherConnId = false) :
    ∃ connections orphanedRelay,
      s.requeueRelayFrame frame = { s with connections, orphanedRelay } := by
  unfold Server.requeueRelayFrame
  rw [if_neg (by simp [h])]
  split
  · exact ⟨_, _, rfl⟩
  · obtain ⟨orphaned, heq⟩ := push_orphan_same s frame
    exact ⟨_, orphaned, heq⟩

/-- A frame whose publisher is there goes back to the end of its queue. -/
theorem requeue_row {s : Server} {frame : RelayFrame}
    (h : isExternalPublisherId frame.publisherConnId = false)
    (hmem : frame.publisherConnId ∈ s.connections.map Conn.connId) :
    ∃ i c, s.connections[i]? = some c ∧ c.connId = frame.publisherConnId ∧
      s.requeueRelayFrame frame = s.put i
        ⟨{ c with pendingRelay := c.pendingRelay ++ [frame] }, s.activePublishRoutes⟩ := by
  unfold Server.requeueRelayFrame
  rw [if_neg (by simp [h])]
  cases hi : s.indexOf frame.publisherConnId with
  | none =>
    obtain ⟨c, hc, hid⟩ := List.mem_map.mp hmem
    unfold Server.indexOf at hi
    rw [List.findIdx?_eq_none_iff] at hi
    simpa [hid] using hi c hc
  | some i =>
    obtain ⟨c, hc, hid⟩ := index_of_row hi
    refine ⟨i, c, hc, hid, ?_⟩
    dsimp only
    rw [List.modify_eq_set_getElem?, hc]
    rfl

/-- A frame over budget goes back to the front. -/
theorem Orderly.requeue (h : Orderly st) {frame : RelayFrame} {rest : List RelayFrame}
    (hb : st.batch = frame :: rest) :
    Orderly { st with server := st.server.requeueRelayFrame frame, batch := rest } := by
  have ht : Tenancy (st.server.requeueRelayFrame frame) :=
    h.tenancy.keeps (requeue_keeps st.server frame)
  have hfrom := h.batch
  have hbalance := h.balance
  rw [hb] at hfrom hbalance
  have hrest : ∀ f ∈ rest, isExternalPublisherId f.publisherConnId = true ∨
      f.publisherConnId ∈ st.server.connections.map Conn.connId :=
    fun f hf => hfrom f (List.mem_cons_of_mem _ hf)
  cases hext : isExternalPublisherId frame.publisherConnId with
  | true =>
    rw [requeue_external hext] at ht ⊢
    refine ⟨ht, h.clear, h.mine, ?_, h.orphans, hrest, fun publisher route => ?_⟩
    · intro f hf
      rcases List.mem_append.mp hf with hf | hf
      · exact h.injected f hf
      · exact List.mem_singleton.mp hf ▸ hext
    · rw [hbalance publisher route]
      simp only [Server.queued, List.filter_append, List.append_assoc, List.append_cancel_left_eq]
      rw [← List.filter_append, List.singleton_append]
  | false =>
    have hmem := (hfrom frame List.mem_cons_self).resolve_left (by simp [hext])
    obtain ⟨i, c, hc, hid, heq⟩ := requeue_row hext hmem
    rw [heq] at ht ⊢
    refine h.intake ht hc rfl (h.clear c (List.mem_of_getElem? hc)) rfl (by simpa using hid.symm)
      (hb ▸ List.subset_cons_self frame rest) fun publisher route => ?_
    rw [hbalance publisher route]
    simp only [List.append_assoc, List.append_cancel_left_eq]
    rw [← List.filter_append, List.singleton_append]

/-- The batch has the frames of a publisher in their order. -/
theorem Orderly.take (h : Orderly st) (hb : st.batch = []) :
    Orderly { st with
      server := st.server.buildRelayFrameBatch.2, batch := st.server.buildRelayFrameBatch.1 } := by
  have hrows : List.Forall₂ Kept st.server.connections
      st.server.buildRelayFrameBatch.2.connections := by
    refine map_keeps (fun c => ?_) _
    split
    · exact kept_relay c _
    · exact .refl c
  have hempty := take_queued st.server
  have hids : st.server.buildRelayFrameBatch.2.connections.map Conn.connId =
      st.server.connections.map Conn.connId := Rows.forall₂_map_eq hrows fun hk => hk.conn_id
  refine ⟨h.tenancy.keeps ⟨hrows, rfl, rfl, rfl⟩, ?_, ?_, by simp [Server.buildRelayFrameBatch],
    rfl, ?_, ?_⟩
  · intro d hd
    obtain ⟨c, hc, rfl⟩ := List.mem_map.mp hd
    split <;> exact h.clear c hc
  · intro d hd f hf
    unfold Server.queued at hempty
    rw [List.append_eq_nil_iff, List.append_eq_nil_iff, List.flatMap_eq_nil_iff] at hempty
    rw [hempty.1.2 d hd] at hf
    cases hf
  · intro f hf
    dsimp only at hf
    have hqueued : f ∈ st.server.queued := by
      have hfilter : f ∈ st.server.buildRelayFrameBatch.1.filter (RelayFrame.isOn f.route) := by
        simp [RelayFrame.isOn, hf]
      rw [route_batch] at hfilter
      exact (List.mem_filter.mp hfilter).1
    unfold Server.queued at hqueued
    rw [h.orphans, List.nil_append] at hqueued
    rcases List.mem_append.mp hqueued with hlocal | hinjected
    · obtain ⟨c, hc, hfc⟩ := List.mem_flatMap.mp hlocal
      right
      rw [hids, h.mine c hc f hfc]
      exact List.mem_map.mpr ⟨c, hc, rfl⟩
    · exact .inl (h.injected f hinjected)
  · intro publisher route
    have hbalance := h.balance publisher route
    rw [hb] at hbalance
    rw [filter_batch, hempty, hbalance]
    simp

theorem offers_silent {codec : Codec} {frame : RelayFrame} {before after : List Conn}
    {events : List ServerEvent} (h : Offers codec frame before after events) :
    events.flatMap ServerEvent.accepted = [] ∧ events.flatMap ServerEvent.relayed = [] := by
  rw [List.flatMap_eq_nil_iff, List.flatMap_eq_nil_iff]
  refine ⟨fun e he => ?_, fun e he => ?_⟩ <;>
  · obtain ⟨_, _, rfl, _⟩ := h.offered e he
    rfl

/-- The first frame of the batch moves to those handled. -/
theorem Orderly.handle (h : Orderly st) {frame : RelayFrame} {rest : List RelayFrame}
    {connections : List Conn} {cache : CacheTable} {events : List ServerEvent}
    (hb : st.batch = frame :: rest) (hq : st.server.queued = [])
    (ho : Offers cfg.codec frame st.server.connections connections events)
    (ht : Tenancy { st.server with connections, cache }) :
    Orderly
      { server := { st.server with connections, cache }
        batch := rest
        past := st.past ++ .handled frame st.server.cache cache :: events } := by
  have hrows : List.Forall₂ SameQueue st.server.connections connections :=
    ho.aside.imp fun _ _ ha => same_queue_unseen ha.unseen
  have hsilent := offers_silent ho
  -- The frame goes from the batch to the handled ones while nothing else waits.
  have hmoved : Orderly
      ⟨st.server, rest, st.past ++ [.handled frame st.server.cache cache]⟩ := by
    refine ⟨h.tenancy, h.clear, h.mine, h.injected, h.orphans, ?_, fun publisher route => ?_⟩
    · exact fun f hf => h.batch f (hb ▸ List.mem_cons_of_mem _ hf)
    · have hbalance := h.balance publisher route
      rw [hb, hq] at hbalance
      rw [hq, accepted_append]
      simp only [ServerEvent.accepted, List.append_nil, hbalance, handledFrames, ServerEvent.relayed,
        List.flatMap_append, List.flatMap_singleton, List.filter_append, List.filter_nil,
        List.append_assoc, List.append_cancel_left_eq]
      rw [← List.filter_append, List.singleton_append]
  refine hmoved.same ht hrows rfl rfl rfl ?_ ?_
  · simp [acceptedFrames, hsilent]
  · simp [handledFrames, hsilent]

/-- No route was drained. -/
theorem drained_steady {events : List ServerEvent} (h : ∀ e ∈ events, Steady e) :
    events.foldl ServerEvent.drained [] = [] := by
  induction events with
  | nil => rfl
  | cons e events ih =>
    have hrest := ih fun e he => h e (List.mem_cons_of_mem _ he)
    have hfirst := h e List.mem_cons_self
    cases e with
    | abandoned connId route => exact hfirst.1.elim
    | turn c act d => cases act <;> exact hrest
    | _ => exact hrest

theorem Orderly.drain (h : Orderly st) (i : Nat) :
    Orderly { st with
      server := (Server.drainOne ([], st.server) i).2
      past := st.past ++ abandonments (Server.drainOne ([], st.server) i).1 } := by
  have ht := h.tenancy.keeps (drain_keeps st.server i)
  unfold Server.drainOne at ht ⊢
  dsimp only at ht ⊢
  cases hc : st.server.connections[i]? with
  | none =>
    refine h.same h.tenancy (Rows.forall₂_refl SameQueue.refl _) rfl rfl rfl ?_ ?_ <;>
    simp [abandonments]
  | some c =>
    obtain ⟨hevictions, habandoned⟩ := h.clear c (List.mem_of_getElem? hc)
    rw [hc] at ht
    simp only [hevictions, habandoned, List.append_nil, List.foldl_nil, List.map_nil] at ht ⊢
    refine h.same ht (Rows.forall₂_set SameQueue.refl hc ?_) rfl rfl rfl ?_ ?_
    · exact ⟨rfl, rfl, hevictions.symm, habandoned.symm⟩
    · simp [abandonments]
    · simp [abandonments]

theorem drop_stale_none (s : Server) : s.dropStalePendingRelay [] = s := by
  have hrow : ∀ c : Conn, (if c.deferMediaRelay = true ∧ ¬ c.relayEnabled = true then
      { c with pendingRelay := c.pendingRelay.filter (fun f =>
        (f.route, c.connId) ∉ ([] : List Abandoned)) } else c) = c := by
    intro c
    split
    · simp
    · rfl
  unfold Server.dropStalePendingRelay
  simp only [hrow, List.map_id']

theorem Orderly.trim (h : Orderly st) {abandoned : List Abandoned} (hn : st.Noted abandoned)
    (hs : ∀ e ∈ st.past, Steady e) :
    Orderly { st with server := st.server.dropStalePendingRelay abandoned } := by
  unfold Stage.Noted at hn
  rw [drained_steady hs] at hn
  have hnone := List.eq_nil_of_subset_nil hn
  subst hnone
  rw [drop_stale_none]
  exact h

theorem Orderly.accept (h : Orderly st) (now : Nat) (transport : Transport) (fd : Nat) :
    Orderly { st with server := st.server.addConnection now transport fd } := by
  have ht := h.tenancy.accept now transport fd
  unfold Server.addConnection at ht ⊢
  split
  · exact h
  · rename_i hfree
    rw [if_neg hfree] at ht
    refine ⟨ht, ?_, ?_, h.injected, h.orphans, ?_, ?_⟩
    · intro c hc
      rcases List.mem_append.mp hc with hc | hc
      · exact h.clear c hc
      · cases List.mem_singleton.mp hc
        exact ⟨rfl, rfl⟩
    · intro c hc
      rcases List.mem_append.mp hc with hc | hc
      · exact h.mine c hc
      · cases List.mem_singleton.mp hc
        exact fun f hf => by cases hf
    · intro f hf
      refine (h.batch f hf).imp_right fun hmem => ?_
      dsimp only
      rw [List.map_append]
      exact List.mem_append_left _ hmem
    · intro publisher route
      have hbalance := h.balance publisher route
      simpa [Server.queued] using hbalance

theorem Orderly.inject (h : Orderly st) {now : Nat} {route : RouteKey} {frameType : FrameType}
    {timestamp : UInt32} {payload : List UInt8} {s : Server} (hb : st.batch = [])
    (hs : st.server.injectRelayFrame cfg.codec now route frameType timestamp payload = .ok s) :
    Orderly { st with
      server := s
      past := st.past ++ (s.pendingInjectedRelay.drop st.server.pendingInjectedRelay.length).map
        ServerEvent.injected } := by
  have ht := h.tenancy.inject hs
  obtain ⟨id, t, hclaim, rfl⟩ := inject_spec hs
  obtain ⟨hext, routes, ids, seq, rfl, _, _⟩ := claim_for_inject_spec h.tenancy.external hclaim
  dsimp only
  rw [List.drop_left, List.map_singleton]
  refine ⟨ht, h.clear, h.mine, ?_, h.orphans, h.batch, ?_⟩
  · intro f hf
    rcases List.mem_append.mp hf with hf | hf
    · exact h.injected f hf
    · cases List.mem_singleton.mp hf
      exact hext
  · intro publisher r
    have hbalance := h.balance publisher r
    rw [hb] at hbalance ⊢
    rw [accepted_append, List.filter_append, hbalance]
    simp [Server.queued, handledFrames, ServerEvent.accepted, ServerEvent.relayed]

/-- One step of a steady run. -/
theorem Orderly.step (h : Orderly st) (hs : ∀ e ∈ st'.past, Steady e) (hstep : st.Step cfg st') :
    Orderly st' := by
  have ht := h.tenancy.step hstep
  rcases hstep with (hcalm | hstir) | hreset
  · cases hcalm with
    | aside connections ha =>
      exact h.same ht (ha.imp fun _ _ ha => same_queue_unseen ha.unseen) rfl rfl rfl rfl rfl
    | replay i c hc =>
      refine h.same ht (Rows.forall₂_set SameQueue.refl hc
        (same_queue_unseen (replay_unseen _ _ c))) rfl rfl rfl ?_ ?_
      · simp [acceptedFrames, Conn.replayed, List.flatMap_map, ServerEvent.accepted]
      · simp [handledFrames, Conn.replayed, List.flatMap_map, ServerEvent.relayed]
    | drain i _ => exact h.drain i
    | trim abandoned hn _ => exact h.trim hn hs
    | take hb _ => exact h.take hb
    | handle frame rest abandoned connections cache events hb hq _ ho _ => exact h.handle hb hq ho ht
    | requeue frame rest hb => exact h.requeue hb
  · cases hstir with
    | act i c act hc ha hb =>
      exact h.act hc ha hb (fun e he => hs e (List.mem_append_right _ he)) ht
    | detach i c claimed _ _ _ _ =>
      exact absurd rfl (hs _ (List.mem_append_right _ (List.mem_singleton.mpr rfl))).1.1
    | remove i c _ _ => exact (hs _ (List.mem_append_right _ (List.mem_singleton.mpr rfl))).1.elim
    | vacate connId => exact h.same ht (Rows.forall₂_refl SameQueue.refl _) rfl rfl rfl rfl rfl
    | adjust i c c' hc hu =>
      exact h.same ht (Rows.forall₂_set SameQueue.refl hc (same_queue_unseen hu)) rfl rfl rfl rfl rfl
    | accept now transport fd => exact h.accept now transport fd
    | inject now route frameType timestamp payload s hinject hb => exact h.inject hb hinject
    | release route _ => exact (hs _ (List.mem_append_right _ (List.mem_singleton.mpr rfl))).1.elim
    | forget route _ => exact h.same ht (Rows.forall₂_refl SameQueue.refl _) rfl rfl rfl rfl rfl
    | tune settings => exact h.same ht (Rows.forall₂_refl SameQueue.refl _) rfl rfl rfl rfl rfl
    | lead _ => exact h.same ht (Rows.forall₂_refl SameQueue.refl _) rfl rfl rfl rfl rfl
  · cases hreset with
    | ids => exact h.same ht (Rows.forall₂_refl SameQueue.refl _) rfl rfl rfl rfl rfl
    | stop _ => exact (hs _ (List.mem_append_right _ (List.mem_singleton.mpr rfl))).1.elim

theorem Orderly.course (h : Orderly st) (hs : ∀ e ∈ st'.past, Steady e)
    (hpath : Course cfg st st') : Orderly st' := by
  induction hpath with
  | refl => exact h
  | tail _ hstep ih =>
    obtain ⟨events, hpast⟩ := step_past hstep
    exact (ih fun e he => hs e (hpast ▸ List.mem_append_left _ he)).step hs hstep

end Steps

/-- In a run in which no connection closes, no route is abandoned, displaced or released and no
deferring publisher starts over, the frames accepted from a publisher on a route are those that
were handled, followed by those that still wait, in order. -/
theorem relay_handles_in_order (cfg : CacheConfig) (settings : ServerSettings)
    (ops : List ServerOp) (h : ∀ e ∈ (Server.run cfg { settings } ops).2, Steady e)
    (publisher : Nat) (route : RouteKey) :
    (acceptedFrames (Server.run cfg { settings } ops).2).filter (RelayFrame.isOf publisher route) =
      (handledFrames (Server.run cfg { settings } ops).2).filter
        (RelayFrame.isOf publisher route) ++
      (Server.run cfg { settings } ops).1.queued.filter (RelayFrame.isOf publisher route) := by
  have hstages := run_stages cfg { settings } [] ops
  generalize Server.run cfg { settings } ops = r at h hstages
  have hstart : Orderly ⟨{ settings }, [], []⟩ :=
    ⟨tenancy_new settings, by simp, by simp [OwnFrames], by simp, rfl, by simp,
      by simp [acceptedFrames, handledFrames, Server.queued]⟩
  have hend := (hstart.course h hstages).balance publisher route
  simpa using hend

section Runs

def tells (m : PeerMessage) : Inbound := .message {} m 10 []

def joins : List Inbound :=
  [tells (.command (.connect (.ok ⟨{ info := { transactionId := 1 } }, some "live"⟩))),
    tells (.command (.createStream (some 2) true))]

def publishes (name : String) : Inbound := tells (.command (.publish (some name)))

def sendsAudio : Inbound := tells (.media .audio 1 0 [0xAF, 0x01, 0x21])

def hears (events : Nat → List Inbound) : ServerOp :=
  .pass { conns := fun connId => { events := events connId } }

/-- A publisher sends two frames, and another one after a pass. -/
def steadyOps : List ServerOp :=
  [.accept 0 ⟨false⟩ 3, hears fun _ => joins ++ [publishes "cam", sendsAudio, sendsAudio],
    hears fun _ => [sendsAudio]]

theorem relay_handles_steady_publisher :
    (acceptedFrames (Server.run mediaConfig {} steadyOps).2).length = 3 ∧
    (acceptedFrames (Server.run mediaConfig {} steadyOps).2).filter
        (RelayFrame.isOf 1 ("live", "cam")) =
      (handledFrames (Server.run mediaConfig {} steadyOps).2).filter
        (RelayFrame.isOf 1 ("live", "cam")) ++
      (Server.run mediaConfig {} steadyOps).1.queued.filter (RelayFrame.isOf 1 ("live", "cam")) :=
  And.imp_right (fun h => relay_handles_in_order mediaConfig {} steadyOps h 1 ("live", "cam"))
    (by decide +kernel)

/-- A publisher whose route the host has pinned sends a frame and then changes its name. -/
def renamingOps : List ServerOp :=
  [.accept 0 ⟨false⟩ 3, .setRelayKey 1 "key", hears fun _ => joins ++ [publishes "a"],
    .setRelayEnabled 1 true, hears fun _ => [sendsAudio, publishes "b"]]

/-- Its route stays claimed, but the frame is neither handled nor waiting. -/
theorem renamed_publisher_drops_frame :
    (∀ e ∈ (Server.run mediaConfig { settings := { deferMediaRelay := true } } renamingOps).2,
      Undisturbed e) ∧
    (acceptedFrames (Server.run mediaConfig { settings := { deferMediaRelay := true } }
        renamingOps).2).filter (RelayFrame.isOf 1 ("live", "key")) ≠
      (handledFrames (Server.run mediaConfig { settings := { deferMediaRelay := true } }
          renamingOps).2).filter (RelayFrame.isOf 1 ("live", "key")) ++
        (Server.run mediaConfig { settings := { deferMediaRelay := true } }
          renamingOps).1.queued.filter (RelayFrame.isOf 1 ("live", "key")) := by
  decide +kernel

end Runs

end LibRtmp.Proofs
