import LibRtmp.Proofs.RelayOrder

namespace LibRtmp.Proofs

variable {s : Server}

structure Traced (st : Stage) : Prop where
  tenancy : Tenancy st.server
  mine : OwnFrames st.server.connections
  injected : ∀ f ∈ st.server.pendingInjectedRelay, isExternalPublisherId f.publisherConnId = true
  orphans : ∀ f ∈ st.server.orphanedRelay, f.publisherConnId < st.server.nextConnId ∧
    f.publisherConnId ∉ st.server.connections.map Conn.connId
  batch : ∀ f ∈ st.batch, isExternalPublisherId f.publisherConnId = true ∨
    f.publisherConnId < st.server.nextConnId

section Steps

variable {cfg : CacheConfig} {st st' : Stage}

def OwnRow (c d : Conn) : Prop :=
  d.connId = c.connId ∧ ∀ f ∈ d.pendingRelay, f ∈ c.pendingRelay ∨ f.publisherConnId = c.connId

theorem OwnRow.refl (c : Conn) : OwnRow c c := ⟨rfl, fun _ hf => .inl hf⟩

theorem SameQueue.own_row {c d : Conn} (h : SameQueue c d) : OwnRow c d :=
  ⟨h.1, fun _ hf => .inl (h.2.1 ▸ hf)⟩

theorem Drops.own_row {c d : Conn} (h : Drops c d) : OwnRow c d := by
  obtain ⟨_, _, _, hs, rfl⟩ := h
  exact ⟨rfl, fun _ hf => .inl (hs.subset hf)⟩

theorem Queued.own_row {act : ConnAct} {c d : Conn} (h : Queued act c d) : OwnRow c d :=
  ⟨h.connId, h.mine⟩

theorem detach_own_row (c : Conn) : OwnRow c c.detachLostPublishRoute := by
  unfold Conn.detachLostPublishRoute
  split
  · exact .refl c
  · rename_i claimed _
    obtain ⟨hid, hrow⟩ := (evict_both_evicts { c with
      claimedPublishRoute := none
      relayEnabled := false
      pendingRelay := c.pendingRelay.filter (fun f =>
        ¬ (f.app = c.app ∧ (f.streamName = claimed ∨ f.streamName = c.relayRouteKey))) }
      claimed c.relayRouteKey).1.drops.own_row
    exact ⟨hid, fun f hf => (hrow f hf).imp_left fun hf => (List.mem_filter.mp hf).1⟩

/-- A step that changes rows only, and takes no frame in from elsewhere. -/
theorem Traced.rows (h : Traced st) (ht : Tenancy st'.server)
    (hc : List.Forall₂ OwnRow st.server.connections st'.server.connections)
    (hn : st'.server.nextConnId = st.server.nextConnId)
    (hi : st'.server.pendingInjectedRelay ⊆ st.server.pendingInjectedRelay)
    (ho : st'.server.orphanedRelay ⊆ st.server.orphanedRelay) (hb : st'.batch ⊆ st.batch) :
    Traced st' := by
  have hids : st'.server.connections.map Conn.connId = st.server.connections.map Conn.connId :=
    Rows.forall₂_map_eq hc fun hr => hr.1
  refine ⟨ht, ?_, fun f hf => h.injected f (hi hf), ?_, ?_⟩
  · intro d hd f hf
    obtain ⟨c, hmem, hid, hrow⟩ := Rows.forall₂_mem_back hc hd
    rw [hid]
    exact (hrow f hf).elim (h.mine c hmem f) id
  · rw [hn, hids]
    exact fun f hf => h.orphans f (ho hf)
  · rw [hn]
    exact fun f hf => h.batch f (hb hf)

theorem orphans_with_room_subset (bytes maxBytes : Nat) (frames : List RelayFrame) :
    Server.orphansWithRoomFor bytes maxBytes frames ⊆ frames := by
  induction frames with
  | nil => exact List.Subset.refl _
  | cons f frames ih =>
    unfold Server.orphansWithRoomFor
    split
    · exact List.Subset.trans ih (List.subset_cons_self f frames)
    · exact List.Subset.refl _

theorem push_orphan_mem {frame f : RelayFrame}
    (h : f ∈ (s.pushOrphanedRelay frame).orphanedRelay) : f ∈ s.orphanedRelay ∨ f = frame := by
  unfold Server.pushOrphanedRelay at h
  split at h
  · exact .inl h
  · rcases List.mem_append.mp h with h | h
    · exact .inl (orphans_with_room_subset _ _ _ h)
    · exact .inr (List.mem_singleton.mp h)

theorem push_orphans_mem {frames : List RelayFrame} {s : Server} {f : RelayFrame}
    (h : f ∈ (frames.foldl Server.pushOrphanedRelay s).orphanedRelay) :
    f ∈ s.orphanedRelay ∨ f ∈ frames := by
  induction frames generalizing s with
  | nil => exact .inl h
  | cons frame frames ih =>
    rcases ih h with h | h
    · rcases push_orphan_mem h with h | rfl
      · exact .inl h
      · exact .inr List.mem_cons_self
    · exact .inr (List.mem_cons_of_mem _ h)

/-- A batch has exactly the frames that were waiting. -/
theorem mem_batch {f : RelayFrame} :
    f ∈ s.buildRelayFrameBatch.1 ↔ f ∈ s.queued := by
  have hfilter : f ∈ s.buildRelayFrameBatch.1.filter (RelayFrame.isOn f.route) ↔
      f ∈ s.queued.filter (RelayFrame.isOn f.route) := by rw [route_batch]
  simpa [RelayFrame.isOn] using hfilter

theorem mem_queued {f : RelayFrame} :
    f ∈ s.queued ↔ f ∈ s.orphanedRelay ∨ (∃ c ∈ s.connections, f ∈ c.pendingRelay) ∨
      f ∈ s.pendingInjectedRelay := by
  simp [Server.queued]

theorem take_rows (s : Server) :
    List.Forall₂ OwnRow s.connections s.buildRelayFrameBatch.2.connections := by
  refine List.forall₂_map_right_iff.mpr (List.forall₂_same.mpr fun c _ => ?_)
  split
  · exact ⟨rfl, nofun⟩
  · exact .refl c

theorem Traced.take (h : Traced st) (ht : Tenancy st.server.buildRelayFrameBatch.2) :
    Traced { st with
      server := st.server.buildRelayFrameBatch.2, batch := st.server.buildRelayFrameBatch.1 } := by
  have hleft : Traced { st with server := st.server.buildRelayFrameBatch.2, batch := [] } :=
    h.rows ht (take_rows _) rfl (List.nil_subset _) (List.nil_subset _) (List.nil_subset _)
  refine ⟨ht, hleft.mine, hleft.injected, hleft.orphans, fun f hf => ?_⟩
  rcases mem_queued.mp (mem_batch.mp hf) with horphan | ⟨c, hc, hfc⟩ | hinjected
  · exact .inr (h.orphans f horphan).1
  · exact .inr (h.mine c hc f hfc ▸ (h.tenancy.below c hc).2)
  · exact .inl (h.injected f hinjected)

/-- A frame whose publisher is gone is an orphan. -/
theorem requeue_gone {frame : RelayFrame}
    (hext : isExternalPublisherId frame.publisherConnId = false)
    (hmem : frame.publisherConnId ∉ s.connections.map Conn.connId) :
    s.requeueRelayFrame frame = s.pushOrphanedRelay frame := by
  have hnone : s.indexOf frame.publisherConnId = none := by
    unfold Server.indexOf
    rw [List.findIdx?_eq_none_iff]
    intro c hc
    rw [beq_eq_false_iff_ne]
    exact fun hid => hmem (List.mem_map.mpr ⟨c, hc, hid⟩)
  unfold Server.requeueRelayFrame
  rw [if_neg (by simp [hext]), hnone]

/-- A frame that goes back has the same origin. -/
theorem Traced.requeue (h : Traced st) {frame : RelayFrame} {rest : List RelayFrame}
    (hb : st.batch = frame :: rest) (ht : Tenancy (st.server.requeueRelayFrame frame)) :
    Traced { st with server := st.server.requeueRelayFrame frame, batch := rest } := by
  have hrest : rest ⊆ st.batch := hb ▸ List.subset_cons_self frame rest
  cases hext : isExternalPublisherId frame.publisherConnId with
  | true =>
    rw [requeue_external hext] at ht ⊢
    refine ⟨ht, h.mine, fun f hf => ?_, h.orphans, fun f hf => h.batch f (hrest hf)⟩
    rcases List.mem_append.mp hf with hf | hf
    · exact h.injected f hf
    · exact List.mem_singleton.mp hf ▸ hext
  | false =>
    by_cases hmem : frame.publisherConnId ∈ st.server.connections.map Conn.connId
    · obtain ⟨i, c, hc, hid, heq⟩ := requeue_row hext hmem
      rw [heq] at ht ⊢
      refine h.rows ht (Rows.forall₂_set OwnRow.refl hc ⟨rfl, fun f hf => ?_⟩) rfl
        (List.Subset.refl _) (List.Subset.refl _) hrest
      refine (List.mem_append.mp hf).imp_right fun hf => ?_
      rw [List.mem_singleton.mp hf, hid]
    · rw [requeue_gone hext hmem] at ht ⊢
      have hbelow := (h.batch frame (hb ▸ List.mem_cons_self)).resolve_left (by simp [hext])
      have hmemo : ∀ f ∈ (st.server.pushOrphanedRelay frame).orphanedRelay,
          f ∈ st.server.orphanedRelay ∨ f = frame := fun f hf => push_orphan_mem hf
      obtain ⟨orphaned, hsame⟩ := push_orphan_same st.server frame
      rw [hsame] at ht hmemo ⊢
      refine ⟨ht, h.mine, h.injected, fun f hf => ?_, fun f hf => h.batch f (hrest hf)⟩
      rcases hmemo f hf with hf | rfl
      · exact h.orphans f hf
      · exact ⟨hbelow, hmem⟩

theorem remove_orphan {i : Nat} {c : Conn} {f : RelayFrame}
    (hc : s.connections[i]? = some c)
    (hf : f ∈ (Pass.removeOne { server := s } i).server.orphanedRelay) :
    f ∈ s.orphanedRelay ∨ f ∈ c.pendingRelay := by
  unfold Pass.removeOne Server.releaseAllPublishRoutes at hf
  dsimp only at hf
  rw [hc] at hf
  exact (push_orphans_mem hf).imp_right fun hf => (List.mem_filter.mp hf).1

theorem Traced.remove (h : Traced st) {i : Nat} {c : Conn} {past : List ServerEvent}
    (hc : st.server.connections[i]? = some c) (hb : st.batch = [])
    (ht : Tenancy (Pass.removeOne { server := st.server } i).server) :
    Traced { st with server := (Pass.removeOne { server := st.server } i).server, past } := by
  have hmem := List.mem_of_getElem? hc
  have horphans := fun f => remove_orphan (s := st.server) (f := f) hc
  obtain ⟨orphaned, heq⟩ := remove_server hc
  rw [heq] at ht horphans ⊢
  have hsub := List.eraseIdx_sublist st.server.connections i
  refine ⟨ht, fun d hd => h.mine d (hsub.subset hd), h.injected, fun f hf => ?_, by simp [hb]⟩
  rcases horphans f hf with hf | hf
  · refine ⟨(h.orphans f hf).1, fun hin => (h.orphans f hf).2 ?_⟩
    exact (hsub.map Conn.connId).subset hin
  · rw [h.mine c hmem f hf]
    refine ⟨(h.tenancy.below c hmem).2, fun hin => ?_⟩
    obtain ⟨d, hd, hid⟩ := List.mem_map.mp hin
    obtain ⟨j, hne, hj⟩ := List.mem_eraseIdx_iff_getElem?.mp hd
    exact hne (ids_apart h.tenancy.ids hc hj hid.symm).symm

theorem Traced.accept (h : Traced st) (now : Nat) (transport : Transport) (fd : Nat) :
    Traced { st with server := st.server.addConnection now transport fd } := by
  have ht := h.tenancy.accept now transport fd
  unfold Server.addConnection at ht ⊢
  split
  · exact h
  · rename_i hfree
    rw [if_neg hfree] at ht
    refine ⟨ht, fun c hc => ?_, h.injected, fun f hf => ?_, fun f hf => ?_⟩
    · rcases List.mem_append.mp hc with hc | hc
      · exact h.mine c hc
      · cases List.mem_singleton.mp hc
        exact nofun
    · obtain ⟨hbelow, hgone⟩ := h.orphans f hf
      refine ⟨Nat.lt_succ_of_lt hbelow, ?_⟩
      rw [List.map_append, List.mem_append, List.map_singleton, List.mem_singleton]
      exact fun hin => hin.elim hgone (Nat.ne_of_lt hbelow)
    · exact (h.batch f hf).imp_right Nat.lt_succ_of_lt

theorem Traced.inject (h : Traced st) {now : Nat} {route : RouteKey} {frameType : FrameType}
    {timestamp : UInt32} {payload : List UInt8} {s : Server} {past : List ServerEvent}
    (hs : st.server.injectRelayFrame cfg.codec now route frameType timestamp payload = .ok s) :
    Traced { st with server := s, past } := by
  have ht := h.tenancy.inject hs
  obtain ⟨id, t, hclaim, rfl⟩ := inject_spec hs
  obtain ⟨hext, routes, ids, seq, rfl, _, _⟩ := claim_for_inject_spec h.tenancy.external hclaim
  refine ⟨ht, h.mine, fun f hf => ?_, h.orphans, h.batch⟩
  rcases List.mem_append.mp hf with hf | hf
  · exact h.injected f hf
  · cases List.mem_singleton.mp hf
    exact hext

theorem release_injected_rest (s : Server) (route : RouteKey) :
    (s.releaseInjectedRoute route).connections = s.connections ∧
      (s.releaseInjectedRoute route).nextConnId = s.nextConnId ∧
      (s.releaseInjectedRoute route).orphanedRelay = s.orphanedRelay ∧
      (s.releaseInjectedRoute route).pendingInjectedRelay.Sublist s.pendingInjectedRelay := by
  unfold Server.releaseInjectedRoute
  dsimp only
  split <;> exact ⟨rfl, rfl, rfl, List.filter_sublist⟩

theorem release_all_injected_rest (keys : List RouteKey) (s : Server) :
    (keys.foldl Server.releaseInjectedRoute s).connections = s.connections ∧
      (keys.foldl Server.releaseInjectedRoute s).nextConnId = s.nextConnId := by
  induction keys generalizing s with
  | nil => exact ⟨rfl, rfl⟩
  | cons k keys ih =>
    obtain ⟨hc, hn, _, _⟩ := release_injected_rest s k
    obtain ⟨hc', hn'⟩ := ih (s.releaseInjectedRoute k)
    exact ⟨hc'.trans hc, hn'.trans hn⟩

theorem stop_rest (s : Server) : s.stop.connections = [] ∧ s.stop.nextConnId = s.nextConnId := by
  obtain ⟨routes, heq, _⟩ := release_every s.connections s
  unfold Server.stop Server.releaseAllInjectedRoutes
  dsimp only
  rw [heq]
  exact release_all_injected_rest _ _

/-- No step makes up a frame. -/
theorem Traced.step (h : Traced st) (hs : st.Step cfg st') : Traced st' := by
  have ht := h.tenancy.step hs
  have hstay := Rows.forall₂_refl OwnRow.refl st.server.connections
  have hsub := fun l : List RelayFrame => List.Subset.refl l
  rcases hs with (hcalm | hstir) | hreset
  · cases hcalm with
    | aside connections ha =>
      exact h.rows ht (ha.imp fun _ _ ha => (same_queue_unseen ha.unseen).own_row) rfl (hsub _)
        (hsub _) (hsub _)
    | replay i c hc =>
      exact h.rows ht (Rows.forall₂_set OwnRow.refl hc
        (same_queue_unseen (replay_unseen _ _ c)).own_row) rfl (hsub _) (hsub _) (hsub _)
    | drain i _ =>
      unfold Server.drainOne at ht ⊢
      dsimp only at ht ⊢
      cases hc : st.server.connections[i]? with
      | none =>
        rw [hc] at ht
        exact h.rows ht hstay rfl (hsub _) (hsub _) (hsub _)
      | some c =>
        rw [hc] at ht
        have hcleared : Drops c { c with pendingCacheEvictions := [] } := ⟨_, _, _, .refl _, rfl⟩
        exact h.rows ht (Rows.forall₂_set OwnRow.refl hc
          (hcleared.trans (note_all_drops _ _)).own_row) rfl (hsub _) (hsub _) (hsub _)
    | trim abandoned _ _ =>
      refine h.rows ht (List.forall₂_map_right_iff.mpr (List.forall₂_same.mpr fun c _ => ?_)) rfl
        (hsub _) (hsub _) (hsub _)
      split
      · exact ⟨rfl, fun f hf => .inl (List.mem_filter.mp hf).1⟩
      · exact .refl c
    | take _ _ => exact h.take ht
    | handle frame rest abandoned connections cache events hb _ _ ho _ =>
      exact h.rows ht (ho.aside.imp fun _ _ ha => (same_queue_unseen ha.unseen).own_row) rfl
        (hsub _) (hsub _) (hb ▸ List.subset_cons_self frame rest)
    | requeue frame rest hb => exact h.requeue hb ht
  · cases hstir with
    | act i c act hc ha _ =>
      have hqueued := turn_queued cfg.codec (s := ⟨c, st.server.activePublishRoutes⟩) act ha
        (h.tenancy.tenants c (List.mem_of_getElem? hc)).seated
      exact h.rows ht (Rows.forall₂_set OwnRow.refl hc hqueued.own_row) rfl (hsub _) (hsub _)
        (hsub _)
    | detach i c claimed hc _ _ _ =>
      exact h.rows ht (Rows.forall₂_set OwnRow.refl hc (detach_own_row c)) rfl (hsub _) (hsub _)
        (hsub _)
    | remove i c hc hb => exact h.remove hc hb ht
    | vacate connId => exact h.rows ht hstay rfl (hsub _) (hsub _) (hsub _)
    | adjust i c c' hc hu =>
      exact h.rows ht (Rows.forall₂_set OwnRow.refl hc (same_queue_unseen hu).own_row) rfl (hsub _)
        (hsub _) (hsub _)
    | accept now transport fd => exact h.accept now transport fd
    | inject now route frameType timestamp payload s hinject _ => exact h.inject hinject
    | release route _ =>
      obtain ⟨hc, hn, ho, hi⟩ := release_injected_rest st.server route
      exact h.rows ht (hc ▸ hstay) hn hi.subset (ho ▸ hsub _) (hsub _)
    | forget route _ => exact h.rows ht hstay rfl (hsub _) (hsub _) (hsub _)
    | tune settings => exact h.rows ht hstay rfl (hsub _) (hsub _) (hsub _)
    | lead _ => exact h.rows ht hstay rfl (hsub _) (hsub _) (hsub _)
  · cases hreset with
    | ids => exact h.rows ht hstay rfl (hsub _) (hsub _) (hsub _)
    | stop _ =>
      obtain ⟨hc, hn⟩ := stop_rest st.server
      refine ⟨ht, ?_, nofun, nofun, ?_⟩
      · intro c hmem
        rw [hc] at hmem
        cases hmem
      · intro f hf
        rw [hn]
        exact h.batch f hf

theorem Traced.course (h : Traced st) (hs : Course cfg st st') : Traced st' := by
  induction hs with
  | refl => exact h
  | tail _ hstep ih => exact ih.step hstep

theorem traced_new (settings : ServerSettings) : Traced ⟨{ settings }, [], []⟩ :=
  ⟨tenancy_new settings, by simp [OwnFrames], by simp, by simp, by simp⟩

end Steps

end LibRtmp.Proofs
