import LibRtmp.Lib.Runs
import LibRtmp.Server.Admission
import LibRtmp.Proofs.Budget

namespace LibRtmp.Proofs

open Relation (ReflTransGen)

section Ids

variable {cfg : CacheConfig} {st st' : Stage} {s s' : Server}

structure Wanes (s s' : Server) : Prop where
  next : s.nextConnId ≤ s'.nextConnId
  ids : s'.nextConnId = s.nextConnId →
    (s'.connections.map Conn.connId).Sublist (s.connections.map Conn.connId)

theorem Wanes.trans {s'' : Server} (h : Wanes s s') (h' : Wanes s' s'') : Wanes s s'' := by
  refine ⟨h.next.trans h'.next, fun heq => ?_⟩
  have hnext := h.next
  have hnext' := h'.next
  exact (h'.ids (by omega)).trans (h.ids (by omega))

theorem wanes_same (hnext : s'.nextConnId = s.nextConnId)
    (hids : s'.connections.map Conn.connId = s.connections.map Conn.connId) : Wanes s s' :=
  ⟨hnext.ge, fun _ => hids ▸ .refl _⟩

theorem add_wanes (now : Nat) (transport : Transport) (fd : Nat) (s : Server) :
    Wanes s (s.addConnection now transport fd) := by
  unfold Server.addConnection
  split
  · exact ⟨Nat.le_refl _, fun _ => .refl _⟩
  · exact ⟨Nat.le_succ _, fun heq => absurd heq (Nat.succ_ne_self _)⟩

/-- Connections only go while no id is given out. -/
theorem stir_wanes (ht : Tenancy st.server) (h : st.Stir cfg st') :
    Wanes st.server st'.server := by
  cases h with
  | act i c act hc hd _ =>
    have htenant := ht.tenants c (List.mem_of_getElem? hc)
    obtain ⟨-, hid, -⟩ := tenant_path (fun hj => hj) htenant
      (perform_path cfg.codec act hd htenant.seated htenant.named)
    exact wanes_same rfl (conn_ids_set hc hid)
  | detach i c claimed hc hclaimed _ _ =>
    exact wanes_same rfl (conn_ids_set hc (detach_kept c hclaimed).conn_id)
  | remove i c hc _ =>
    obtain ⟨orphaned, heq⟩ := remove_server hc
    rw [heq]
    exact ⟨Nat.le_refl _, fun _ => (List.eraseIdx_sublist _ _).map _⟩
  | vacate connId => exact wanes_same rfl rfl
  | adjust i c c' hc hu => exact wanes_same rfl (conn_ids_set hc hu.conn_id)
  | accept now transport fd => exact add_wanes now transport fd st.server
  | inject now route frameType timestamp payload s hs _ =>
    obtain ⟨id, u, hclaim, rfl⟩ := inject_spec hs
    obtain ⟨_, _, _, rfl⟩ := claim_same hclaim
    exact wanes_same rfl rfl
  | release route _ =>
    unfold Server.releaseInjectedRoute
    dsimp only
    split <;> exact wanes_same rfl rfl
  | forget route _ => exact wanes_same rfl rfl
  | tune settings => exact wanes_same rfl rfl
  | lead injectFirst => exact wanes_same rfl rfl

theorem stop_next_id (s : Server) : s.stop.nextConnId = s.nextConnId := by
  obtain ⟨routes, heq, _⟩ := release_every s.connections s
  unfold Server.stop Server.releaseAllInjectedRoutes
  rw [heq]
  exact release_same_part next_id_bystander _ _

theorem stop_connections (s : Server) : s.stop.connections = [] := by
  refine Rows.foldl_same Server.connections (fun t route => ?_) _ _
  unfold Server.releaseInjectedRoute
  dsimp only
  split <;> rfl

theorem course_wanes (ht : Tenancy st.server) (h : Course cfg st st') :
    Wanes st.server st'.server := by
  induction h with
  | refl => exact wanes_same rfl rfl
  | @tail b c hpath hstep ih =>
    refine ih.trans ?_
    rcases hstep with (hcalm | hstir) | hreset
    · have hkeeps := calm_keeps hcalm
      exact wanes_same hkeeps.next (Rows.forall₂_map_eq hkeeps.conns fun hab => hab.conn_id)
    · exact stir_wanes (ht.course hpath) hstir
    · cases hreset with
      | ids => exact wanes_same rfl rfl
      | stop _ =>
        refine ⟨(stop_next_id b.server).ge, fun _ => ?_⟩
        rw [stop_connections]
        exact List.nil_sublist _

structure Retires (s s' : Server) : Prop where
  tenancy : Tenancy s'
  next : s'.nextConnId = s.nextConnId
  ids : (s'.connections.map Conn.connId).Sublist (s.connections.map Conn.connId)

theorem retires_of_course {past : List ServerEvent} (ht : Tenancy s)
    (h : Course cfg ⟨s, [], []⟩ ⟨s', [], past⟩) (hnext : s'.nextConnId = s.nextConnId) :
    Retires s s' :=
  ⟨ht.course h, hnext, (course_wanes ht h).ids hnext⟩

theorem pass_retires (ht : Tenancy s) (cfg : CacheConfig) (input : PassInput) :
    Retires s (processConnections cfg input s).server :=
  retires_of_course ht (course_of_stages (pass_stages cfg input s []))
    (pass_same_part cfg input s next_id_bystander fun _ => rfl)

/-- Between polls no id is given out. -/
theorem host_next_id (ht : Tenancy s) (cfg : CacheConfig) {op : ServerOp}
    (h : op.betweenPolls = true) : (op.exec cfg s).1.nextConnId = s.nextConnId := by
  have hact (connId : Nat) (act : ConnAct) (followUp : Conn → Conn × List InitFrame) :
      (s.actOn cfg.codec connId act followUp).1.nextConnId = s.nextConnId := by
    unfold Server.actOn
    split
    · rfl
    · split
      · rfl
      · split <;> rfl
  have htune (connId : Nat) (f : Conn → Conn) :
      (s.tuneConn connId f).nextConnId = s.nextConnId := by
    unfold Server.tuneConn
    split <;> rfl
  cases op with
  | accept now transport fd => cases h
  | poll input => cases h
  | stop => cases h
  | pass input =>
    simp only [ServerOp.exec]
    exact (pass_retires ht cfg input).next
  | complete connId host role requestId allow socket => exact hact _ _ _
  | connInject connId host frameType timestamp payload => exact hact _ _ _
  | inject now route frameType timestamp payload =>
    unfold ServerOp.exec
    dsimp only
    split
    · rfl
    · rename_i t ht
      obtain ⟨id, u, hclaim, rfl⟩ := inject_spec ht
      obtain ⟨_, _, _, rfl⟩ := claim_same hclaim
      rfl
  | releaseInjected route => exact release_same_part next_id_bystander [route] s
  | releaseAllInjected => exact release_same_part next_id_bystander s.injectedRoutes s
  | setRelayKey connId relayKey => exact htune connId _
  | setRelayEnabled connId enabled => exact htune connId _
  | tune settings => rfl

theorem host_retires (ht : Tenancy s) (cfg : CacheConfig) {op : ServerOp}
    (h : op.betweenPolls = true) : Retires s (op.exec cfg s).1 :=
  retires_of_course ht (exec_course cfg s [] op) (host_next_id ht cfg h)

theorem stop_retires (ht : Tenancy s) : Retires s s.stop := by
  refine ⟨ht.stop, stop_next_id s, ?_⟩
  rw [stop_connections]
  exact List.nil_sublist _

end Ids

inductive DoorStep : Admission × List PendingTlsConnection →
    Admission × List PendingTlsConnection → Prop where
  | takeOut {a : Admission} : DoorStep (a, []) ({ a with pendingTls := [] }, a.pendingTls)
  | drop {a : Admission} {rest : List PendingTlsConnection} (p : PendingTlsConnection) :
    DoorStep (a, p :: rest) (a, rest)
  | keep {a : Admission} {rest : List PendingTlsConnection} (p : PendingTlsConnection) :
    DoorStep (a, p :: rest) ({ a with pendingTls := a.pendingTls ++ [p] }, rest)
  | complete {a : Admission} {rest : List PendingTlsConnection} (p : PendingTlsConnection)
    (now : Nat) (transport : Transport) (fd : Nat) :
    DoorStep (a, p :: rest) (a.addConnection now transport fd p.remoteAddr, rest)
  | arrive {a : Admission} (now : Nat) (transport : Transport) (fd : Nat) (addr : SocketAddr) :
    DoorStep (a, []) (a.addConnection now transport fd addr, [])
  | queue {a : Admission} (addr : SocketAddr) (deadline : Nat) :
    DoorStep (a, []) (a.queuePendingTls ⟨addr, peerIp addr, deadline⟩, [])
  | turn {a : Admission} (next : Nat) :
    DoorStep (a, []) ({ a with nextListenerAccept := next }, [])

abbrev DoorPath := ReflTransGen DoorStep

section Door

variable {a : Admission} {rest : List PendingTlsConnection}

theorem progress_one_step (now : Nat) (p : PendingTlsConnection) (t : TlsProgress) :
    DoorStep (a, p :: rest) (a.progressOne now p t, rest) := by
  unfold Admission.progressOne
  split
  · exact .drop p
  split
  · exact .keep p
  split
  · exact .complete p _ _ _
  · split
    · exact .keep p
    · exact .drop p
  · exact .drop p

theorem progress_path (now : Nat) (outcomes : Nat → TlsProgress) :
    DoorPath (a, []) (a.progressPendingTls now outcomes, []) := by
  have hloop (l : List (PendingTlsConnection × Nat)) (a : Admission) :
      DoorPath (a, l.map Prod.fst)
        (l.foldl (fun a p => a.progressOne now p.1 (outcomes p.2)) a, []) := by
    induction l generalizing a with
    | nil => exact .refl
    | cons p l ih => exact .head (progress_one_step now p.1 (outcomes p.2)) (ih _)
  have hall := hloop a.pendingTls.zipIdx { a with pendingTls := [] }
  rw [List.zipIdx_map_fst] at hall
  exact .head .takeOut hall

theorem accept_one_path (i : Nat) (arrival : Arrival) :
    DoorPath (a, []) (a.acceptOne i arrival, []) := by
  refine .head (.turn ((i + 1) % a.listeners.length)) ?_
  unfold Admission.acceptOne
  dsimp only
  split
  · split
    · exact .single (.arrive _ _ _ _)
    · exact .single (.queue _ _)
    · exact .refl
  · exact .single (.arrive _ _ _ _)

theorem visit_path (st : Accepting) (i : Nat) :
    DoorPath (st.admission, []) ((st.visit i).admission, []) := by
  unfold Accepting.visit
  split
  · exact .refl
  split
  · exact .refl
  split
  · exact .refl
  · exact .refl
  · exact accept_one_path i _

theorem sweep_path (st : Accepting) : DoorPath (st.admission, []) (st.sweep.admission, []) :=
  @Rows.foldl_path _ _ _ _ (fun st : Accepting => (st.admission, [])) _
    (fun st _ => visit_path st _) _ { st with acceptedAny := false }

theorem loop_path (fuel : Nat) (st : Accepting) :
    DoorPath (st.admission, []) ((Accepting.loop fuel st).admission, []) := by
  induction fuel generalizing st with
  | zero => exact .refl
  | succ fuel ih =>
    unfold Accepting.loop
    dsimp only
    split
    · exact sweep_path st
    · exact (sweep_path st).trans (ih st.sweep)

/-- All that happens between the two passes of a poll. -/
theorem accept_path (a : Admission) (door : DoorInput) :
    DoorPath (a, []) (a.acceptNewConnections door, []) := by
  refine (progress_path door.now door.progress).trans ?_
  unfold Admission.acceptNewConnections
  dsimp only
  generalize a.progressPendingTls door.now door.progress = b
  split
  · exact .single (.turn 0)
  · refine .head (.turn (b.nextListenerAccept % b.listeners.length)) ?_
    exact loop_path _ ⟨{ b with nextListenerAccept := b.nextListenerAccept % b.listeners.length },
      door.incoming, 0, false, false⟩

theorem door_config {x y : Admission × List PendingTlsConnection} (h : DoorPath x y) :
    y.1.config = x.1.config := by
  have hadd (a : Admission) (now : Nat) (transport : Transport) (fd : Nat) (addr : SocketAddr) :
      (a.addConnection now transport fd addr).config = a.config := by
    unfold Admission.addConnection
    split_ifs <;> rfl
  induction h with
  | refl => rfl
  | tail _ hs ih =>
    refine Eq.trans ?_ ih
    cases hs with
    | complete p now transport fd => exact hadd _ _ _ _ _
    | arrive now transport fd addr => exact hadd _ _ _ _ _
    | queue addr deadline =>
      unfold Admission.queuePendingTls
      split_ifs <;> rfl
    | _ => rfl

theorem step_config (cfg : CacheConfig) (a : Admission) (op : AdmissionOp) :
    (a.step cfg op).config = a.config := by
  cases op with
  | poll first second door => exact door_config (accept_path _ door)
  | _ => rfl

/-- The server lets in those that are recorded, and nobody else. -/
theorem door_server {s : Server} {b : Admission} (h : DoorPath (a, []) (b, []))
    (ha : a.server = s.acceptNewConnections a.accepted) :
    b.server = s.acceptNewConnections b.accepted := by
  have hadd (c : Admission) (now : Nat) (transport : Transport) (fd : Nat) (addr : SocketAddr)
      (hc : c.server = s.acceptNewConnections c.accepted) :
      (c.addConnection now transport fd addr).server =
        s.acceptNewConnections (c.addConnection now transport fd addr).accepted := by
    unfold Admission.addConnection
    split
    · exact hc
    split
    · exact hc
    split
    · exact hc
    · rw [Server.acceptNewConnections, List.foldl_append]
      exact congrArg (fun t : Server => t.addConnection now transport fd) hc
  have hstep : ∀ x y, DoorStep x y → x.1.server = s.acceptNewConnections x.1.accepted →
      y.1.server = s.acceptNewConnections y.1.accepted := by
    intro x y hxy hx
    cases hxy with
    | complete p now transport fd => exact hadd _ _ _ _ _ hx
    | arrive now transport fd addr => exact hadd _ _ _ _ _ hx
    | queue addr deadline =>
      unfold Admission.queuePendingTls
      split
      · exact hx
      split
      · exact hx
      · exact hx
    | _ => exact hx
  suffices hall : ∀ x y, DoorPath x y → x.1.server = s.acceptNewConnections x.1.accepted →
      y.1.server = s.acceptNewConnections y.1.accepted from hall _ _ h ha
  intro x y hxy hx
  induction hxy with
  | refl => exact hx
  | tail _ hs ih => exact hstep _ _ hs ih

end Door

/-- The limits hold with the handshakes in `rest`, and each connection has an id of its own. -/
structure Housed (a : Admission) (rest : List PendingTlsConnection) : Prop where
  slots : 0 < a.config.maxConnections →
    (a.totalConnectionSlotsInUse + rest.length : Int) ≤ a.config.maxConnections
  handshakes : a.config.maxConnections ≤ 0 →
    (a.pendingTls ++ rest).length ≤ maxPendingTlsHandshakes
  perAddr : ∀ ip, a.activeConnectionsForIp ip ≤ a.maxConnectionsPerAddr
  pendingPerAddr : ∀ ip, (a.pendingTls ++ rest).countP (fun p => p.remoteIp = ip) ≤
    a.maxPendingTlsPerAddr
  labels : ∀ p ∈ a.pendingTls ++ rest, p.remoteIp = peerIp p.remoteAddr
  tenancy : Tenancy a.server
  order : a.issued.Pairwise (· < ·)
  range : ∀ id ∈ a.issued, 0 < id ∧ id < a.server.nextConnId
  owned : (a.server.connections.map Conn.connId).Sublist a.issued

namespace Housed

variable {a : Admission} {rest : List PendingTlsConnection}

/-- Handshakes go. -/
theorem fewer (h : Housed a rest) {pendingTls rest' : List PendingTlsConnection}
    (hs : (pendingTls ++ rest').Sublist (a.pendingTls ++ rest)) :
    Housed { a with pendingTls } rest' := by
  have hlen := hs.length_le
  simp only [List.length_append] at hlen
  refine ⟨fun hmax => ?_, fun hmax => hs.length_le.trans (h.handshakes hmax), h.perAddr,
    fun ip => hs.countP_le.trans (h.pendingPerAddr ip), fun p hp => h.labels p (hs.subset hp),
    h.tenancy, h.order, h.range, h.owned⟩
  have hslots := h.slots hmax
  simp only [Admission.totalConnectionSlotsInUse] at hslots ⊢
  push_cast at hslots ⊢
  omega

theorem active_eq (a : Admission) (ip : IpAddr) : a.activeConnectionsForIp ip =
    (a.server.connections.map Conn.connId).countP (fun id => peerIp (a.remoteAddr id) = ip) := by
  rw [Admission.activeConnectionsForIp, List.countP_map]
  rfl

/-- Connections go. -/
theorem retire (h : Housed a rest) {s : Server} (hs : Retires a.server s) :
    Housed { a with server := s } rest := by
  have hlen := hs.ids.length_le
  simp only [List.length_map] at hlen
  refine ⟨fun hmax => ?_, h.handshakes, fun ip => ?_, h.pendingPerAddr, h.labels, hs.tenancy,
    h.order, fun id hid => hs.next.symm ▸ h.range id hid, hs.ids.trans h.owned⟩
  · have hslots := h.slots hmax
    simp only [Admission.totalConnectionSlotsInUse] at hslots ⊢
    push_cast at hslots ⊢
    omega
  · refine Nat.le_trans ?_ (h.perAddr ip)
    rw [active_eq, active_eq]
    exact hs.ids.countP_le

theorem add_ids {s : Server} (now : Nat) (transport : Transport) (fd : Nat)
    (h : ¬ (s.nextConnId = 0 ∨ s.nextConnId ≥ externalPublisherIdBit)) :
    (s.addConnection now transport fd).connections.map Conn.connId =
        s.connections.map Conn.connId ++ [s.nextConnId] ∧
      (s.addConnection now transport fd).nextConnId = s.nextConnId + 1 := by
  unfold Server.addConnection
  rw [if_neg h]
  exact ⟨by simp, rfl⟩

/-- The address of the newest connection counts for no other one. -/
theorem active_added (h : Housed a rest) {ids : List Nat}
    (hids : ids = a.server.connections.map Conn.connId ++ [a.server.nextConnId])
    (addr : SocketAddr) (ip : IpAddr) :
    ids.countP (fun id =>
        peerIp (Function.update a.remoteAddr a.server.nextConnId addr id) = ip) =
      a.activeConnectionsForIp ip + if peerIp addr = ip then 1 else 0 := by
  have hold : (a.server.connections.map Conn.connId).countP (fun id =>
        peerIp (Function.update a.remoteAddr a.server.nextConnId addr id) = ip) =
      a.activeConnectionsForIp ip := by
    rw [active_eq]
    refine List.countP_congr fun id hid => ?_
    have hlt := (h.range id (h.owned.subset hid)).2
    rw [Function.update_of_ne (Nat.ne_of_lt hlt)]
  rw [hids, List.countP_append, hold, List.countP_singleton, Function.update_self]
  simp

/-- A peer is let in, or not. -/
theorem add (h : Housed a rest) (now : Nat) (transport : Transport) (fd : Nat)
    (addr : SocketAddr)
    (hroom : a.maxConnectionsReached = false → 0 < a.config.maxConnections →
      (a.totalConnectionSlotsInUse + 1 + rest.length : Int) ≤ a.config.maxConnections) :
    Housed (a.addConnection now transport fd addr) rest := by
  unfold Admission.addConnection
  split
  · exact h
  split
  · exact h
  split
  · exact h
  rename_i hmax haddr hfree
  obtain ⟨hids, hnext⟩ := add_ids now transport fd hfree
  have hlen := congrArg List.length hids
  simp only [List.length_map, List.length_append, List.length_singleton] at hlen
  refine ⟨fun hpos => ?_, h.handshakes, fun ip => ?_, h.pendingPerAddr, h.labels,
    h.tenancy.accept now transport fd, ?_, ?_, ?_⟩
  · have hslots := hroom (by simpa using hmax) hpos
    simp only [Admission.totalConnectionSlotsInUse] at hslots ⊢
    rw [hlen]
    push_cast at hslots ⊢
    omega
  · rw [active_eq, h.active_added hids]
    split
    · rename_i hip
      subst hip
      exact Nat.lt_of_not_le haddr
    · exact h.perAddr ip
  · refine List.pairwise_append.mpr ⟨h.order, List.pairwise_singleton _ _,
      fun id hid id' hid' => ?_⟩
    rw [List.mem_singleton.mp hid']
    exact (h.range id hid).2
  · intro id hid
    rw [hnext]
    rcases List.mem_append.mp hid with hid | hid
    · exact ⟨(h.range id hid).1, Nat.lt_succ_of_lt (h.range id hid).2⟩
    · rw [List.mem_singleton.mp hid]
      exact ⟨h.tenancy.range.1, Nat.lt_succ_self _⟩
  · rw [hids]
    exact h.owned.append (.refl _)

/-- A handshake is queued only within the limits. -/
theorem queue (h : Housed a []) (p : PendingTlsConnection) (hp : p.remoteIp = peerIp p.remoteAddr) :
    Housed (a.queuePendingTls p) [] := by
  unfold Admission.queuePendingTls
  split
  · exact h
  split
  · exact h
  rename_i haddr hlimit
  unfold Admission.pendingTlsLimitReached at hlimit
  refine ⟨fun hpos => ?_, fun hnone => ?_, h.perAddr, fun ip => ?_, ?_, h.tenancy, h.order, h.range,
    h.owned⟩
  · rw [if_pos hpos] at hlimit
    simp only [Admission.maxConnectionsReached, decide_eq_true_eq, not_and] at hlimit
    have hroom := hlimit hpos
    simp only [Admission.totalConnectionSlotsInUse] at hroom ⊢
    simp
    omega
  · rw [if_neg (Int.not_lt.mpr hnone)] at hlimit
    simp only [decide_eq_true_eq, Nat.not_le] at hlimit
    simp only [List.append_nil, List.length_append, List.length_singleton]
    exact hlimit
  · have hsame := h.pendingPerAddr ip
    rw [List.append_nil] at hsame ⊢
    rw [List.countP_append, List.countP_singleton]
    by_cases hip : p.remoteIp = ip
    · subst hip
      simp only [decide_true, if_pos]
      exact Nat.lt_of_not_le haddr
    · simp only [hip, decide_false, Bool.false_eq_true, if_neg, not_false_eq_true, Nat.add_zero]
      exact hsame
  · intro q hq
    rw [List.append_nil] at hq
    rcases List.mem_append.mp hq with hq | hq
    · exact h.labels q (List.mem_append_left _ hq)
    · rw [List.mem_singleton.mp hq]
      exact hp

/-- Every step at the door keeps the limits. -/
theorem step {rest' : List PendingTlsConnection} {b : Admission} (h : Housed a rest)
    (hs : DoorStep (a, rest) (b, rest')) : Housed b rest' := by
  cases hs with
  | takeOut => exact h.fewer (by simp)
  | drop p => exact h.fewer ((List.Sublist.refl _).append (List.sublist_cons_self p _))
  | keep p => exact h.fewer (by simp)
  | complete p now transport fd =>
    have hdrop : Housed a rest' :=
      h.fewer ((List.Sublist.refl _).append (List.sublist_cons_self p rest'))
    refine hdrop.add now transport fd _ fun _ hpos => ?_
    have hslots := h.slots hpos
    rw [List.length_cons] at hslots
    push_cast at hslots
    omega
  | arrive now transport fd addr =>
    refine h.add now transport fd addr fun hfree hpos => ?_
    simp only [Admission.maxConnectionsReached, decide_eq_false_iff_not, not_and] at hfree
    have hroom := hfree hpos
    simp
    omega
  | queue addr deadline => exact h.queue _ rfl
  | turn next =>
    exact ⟨h.slots, h.handshakes, h.perAddr, h.pendingPerAddr, h.labels, h.tenancy, h.order,
      h.range, h.owned⟩

theorem path {x y : Admission × List PendingTlsConnection} (h : Housed x.1 x.2)
    (hpath : DoorPath x y) : Housed y.1 y.2 := by
  induction hpath with
  | refl => exact h
  | tail _ hs ih => exact ih.step hs

/-- A whole poll keeps the limits. -/
theorem poll (h : Housed a []) (cfg : CacheConfig) (first second : PassInput) (door : DoorInput) :
    Housed (a.poll cfg first second door) [] := by
  have hpass := pass_retires h.tenancy cfg { first with relaySends := 0 }
  unfold Admission.poll Server.pollImpl
  dsimp only
  generalize relaySendsAfter cfg { first with relaySends := 0 } a.server = sends
  generalize processConnections cfg { first with relaySends := 0 } a.server = p at hpass ⊢
  have hstart : Housed { a with server := p.server, accepted := [] } [] := by
    have hretired := h.retire hpass
    exact ⟨hretired.slots, hretired.handshakes, hretired.perAddr, hretired.pendingPerAddr,
      hretired.labels, hretired.tenancy, hretired.order, hretired.range, hretired.owned⟩
  have hpath := accept_path { a with server := p.server, accepted := [] } door
  have hdoor := hstart.path hpath
  have hserver := door_server hpath rfl
  generalize Admission.acceptNewConnections
    { a with server := p.server, accepted := [] } door = b at hdoor hserver ⊢
  rw [← hserver]
  apply hdoor.retire
  split
  · have hlead : Tenancy
        { b.server with relayInterleaveInjectFirst := a.server.relayInterleaveInjectFirst } :=
      ⟨hdoor.tenancy.ids, hdoor.tenancy.below, hdoor.tenancy.range, hdoor.tenancy.tenants,
        hdoor.tenancy.known, hdoor.tenancy.external⟩
    have hsecond := pass_retires hlead cfg { second with relaySends := sends }
    generalize processConnections cfg { second with relaySends := sends } _ = q at hsecond ⊢
    exact ⟨hsecond.tenancy, hsecond.next, hsecond.ids⟩
  · exact ⟨hdoor.tenancy, rfl, .refl _⟩

theorem run_step (h : Housed a []) (cfg : CacheConfig) (op : AdmissionOp) :
    Housed (a.step cfg op) [] := by
  cases op with
  | poll first second door => exact h.poll cfg first second door
  | host call => exact h.retire (host_retires h.tenancy cfg call.between)
  | listen tls =>
    exact ⟨h.slots, h.handshakes, h.perAddr, h.pendingPerAddr, h.labels, h.tenancy, h.order,
      h.range, h.owned⟩
  | stop =>
    have hstopped := @fewer _ _ (h.retire (stop_retires h.tenancy)) [] [] (List.nil_sublist _)
    exact ⟨hstopped.slots, hstopped.handshakes, hstopped.perAddr, hstopped.pendingPerAddr,
      hstopped.labels, hstopped.tenancy, hstopped.order, hstopped.range, hstopped.owned⟩

end Housed

/-- Whatever arrives, closes or completes its handshake: the connections and handshakes stay within
the limit of the server, or the handshakes within theirs if it has none; those of each address stay
within its limits; and every connection has an id of its own, which no other one had before it, and
which is none of an injected route. -/
theorem admission_limits_hold (cfg : CacheConfig) (config : AdmissionConfig)
    (settings : ServerSettings) (connIdBase : Nat)
    (hbase : 0 < connIdBase ∧ connIdBase < externalPublisherIdBit) (ops : List AdmissionOp) :
    let a := Runs.exec (Admission.step cfg) (Admission.new config settings connIdBase) ops
    a.config = config ∧
    (0 < config.maxConnections → (a.totalConnectionSlotsInUse : Int) ≤ config.maxConnections) ∧
    (config.maxConnections ≤ 0 → a.pendingTls.length ≤ maxPendingTlsHandshakes) ∧
    (∀ ip, a.activeConnectionsForIp ip ≤ a.maxConnectionsPerAddr) ∧
    (∀ ip, a.pendingTls.countP (fun p => peerIp p.remoteAddr = ip) ≤ a.maxPendingTlsPerAddr) ∧
    a.issued.Nodup ∧ (∀ id ∈ a.issued, isExternalPublisherId id = false) ∧
    (a.server.connections.map Conn.connId).Sublist a.issued := by
  have hstart : Housed (Admission.new config settings connIdBase) [] := by
    have hempty : Tenancy { settings, nextConnId := connIdBase } :=
      ⟨List.nodup_nil, by simp, ⟨hbase.1, hbase.2.le⟩, by simp, (fun k d hk => by cases hk),
        fun k d hk => by cases hk⟩
    refine ⟨fun hpos => ?_, fun _ => Nat.zero_le _, fun _ => Nat.zero_le _, fun _ => Nat.zero_le _,
      by simp [Admission.new], hempty, .nil, by simp [Admission.new], .refl _⟩
    simpa [Admission.totalConnectionSlotsInUse, Admission.new] using Int.le_of_lt hpos
  have h : Housed (Runs.exec (Admission.step cfg) (Admission.new config settings connIdBase) ops)
      [] :=
    @Runs.exec_invariant _ _ _ (fun a => Housed a []) (fun _ op h => h.run_step cfg op) _ hstart
      ops
  have hconfig : (Runs.exec (Admission.step cfg) (Admission.new config settings connIdBase)
      ops).config = config :=
    @Runs.exec_invariant _ _ _ (fun a => a.config = config)
      (fun a op h => (step_config cfg a op).trans h) _ rfl ops
  generalize Runs.exec (Admission.step cfg) (Admission.new config settings connIdBase) ops = a
    at h hconfig
  have hslots := h.slots
  have hhandshakes := h.handshakes
  rw [hconfig] at hslots hhandshakes
  refine ⟨hconfig, ?_, ?_, h.perAddr, ?_, ?_, ?_, h.owned⟩
  · simpa using hslots
  · simpa using hhandshakes
  · intro ip
    have hpending := h.pendingPerAddr ip
    rw [List.append_nil] at hpending
    rw [List.countP_congr fun p hp => by rw [h.labels p (List.mem_append_left _ hp)]] at hpending
    exact hpending
  · exact h.order.imp fun hlt => Nat.ne_of_lt hlt
  · intro id hid
    exact socket_id_inside (Nat.lt_of_lt_of_le (h.range id hid).2 h.tenancy.range.2)

/-- Three peers come to a server that takes two. -/
def threeArrive : List AdmissionOp :=
  [.listen false, .poll {} {}
    { incoming := [1, 2, 3].map (fun i => some ⟨⟨.v4 i, 5000⟩, 0, 3, .ok none, 0⟩) }]

theorem two_of_three_admitted :
    let a := Runs.exec (Admission.step mediaConfig) (Admission.new { maxConnections := 2 } {} 1)
      threeArrive
    a.issued = [1, 2] ∧ (a.totalConnectionSlotsInUse : Int) ≤ 2 :=
  ⟨by decide +kernel, (admission_limits_hold mediaConfig { maxConnections := 2 } {} 1 (by decide)
    threeArrive).2.1 (by decide)⟩

end LibRtmp.Proofs
