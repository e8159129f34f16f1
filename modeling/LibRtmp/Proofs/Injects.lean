import LibRtmp.Proofs.CacheBounds
import LibRtmp.Proofs.Provenance

namespace LibRtmp.Proofs

open Relation (ReflTransGen)
open CacheTable

def Owns (t : CacheTable) (p : Nat) : Prop := ∃ keys, t.publisherCacheKeys.lookup p = some keys

section Owners

variable {t t' : CacheTable} {p q : Nat} {key : RouteKey}

theorem evict_owns (h : Owns (t.evictStreamCacheKey key) p) : Owns t p := by
  obtain ⟨keys, hrow⟩ := h
  obtain ⟨-, old, hold, -⟩ := (evict_row t key p keys).mp hrow
  exact ⟨old, hold⟩

theorem shed_owns (hs : ReflTransGen (Sheds key) t t') (h : Owns t' p) : Owns t p := by
  induction hs with
  | refl => exact h
  | tail _ hshed ih =>
    obtain ⟨k, -, -, rfl⟩ := hshed
    exact ih (evict_owns h)

theorem store_frame_owns {cfg : CacheConfig} {frame : RelayFrame} {replaced : StreamCache → Nat}
    {f : StreamCache → StreamCache} (h : Owns (storeFrame cfg t frame replaced f) p) :
    Owns t p ∨ p = frame.publisherConnId := by
  rw [store_frame_eq] at h
  have hsheds := (reserve_spec cfg t (frameReservation t frame replaced)).sheds
  generalize reserveStreamCacheStorage cfg t (frameReservation t frame replaced) = r at h hsheds
  obtain ⟨granted, u⟩ := r
  cases granted with
  | false => exact .inl (shed_owns hsheds h)
  | true =>
    obtain ⟨keys, hrow⟩ := h
    rcases (Maps.lookup_insert _ _ _ _ _).mp hrow with ⟨hp, -⟩ | ⟨-, hrow⟩
    · exact .inr hp
    · exact .inl (shed_owns hsheds ⟨keys, hrow⟩)

theorem drop_stale_owns {f : StreamCache → StreamCache} (h : Owns (t.dropStale key f) p) :
    Owns t p := by
  unfold dropStale at h
  split at h
  · exact h
  · dsimp only at h
    split at h
    · exact evict_owns h
    · exact h

/-- Only the publisher of a frame may get a new row when the frame is cached. -/
theorem cache_frame_owns {cfg : CacheConfig} {frame : RelayFrame}
    (h : Owns (cacheRelayFrame cfg t frame) p) : Owns t p ∨ p = frame.publisherConnId := by
  unfold cacheRelayFrame at h
  dsimp only at h
  split at h
  · split at h
    · exact .inl h
    · split at h
      · exact .inl h
      · exact store_frame_owns h
  · split at h
    · exact .inl h
    all_goals
      split at h
      · exact .inl (drop_stale_owns h)
      · exact store_frame_owns h

theorem release_key_owns (h : Owns (t.releaseKey q key) p) : Owns t p := by
  unfold releaseKey at h
  dsimp only at h
  split at h
  · rename_i hin
    obtain ⟨keys, hrow⟩ := h
    rw [remove_untracked_rows] at hrow
    split at hrow
    · exact ⟨keys, ((Maps.lookup_erase _ _ _ _).mp hrow).2⟩
    · rcases (Maps.lookup_insert _ _ _ _ _).mp hrow with ⟨rfl, -⟩ | ⟨-, hrow⟩
      · cases hq : t.publisherCacheKeys.lookup p with
        | none => simp [hq] at hin
        | some old => exact ⟨old, hq⟩
      · exact ⟨keys, hrow⟩
  · exact h

theorem release_keys_owns {keys : List RouteKey}
    (h : Owns (keys.foldl (fun t k => t.releaseKey q k) t) p) : Owns t p := by
  induction keys generalizing t with
  | nil => exact h
  | cons k keys ih => exact release_key_owns (ih h)

theorem forget_owns (h : Owns (t.forgetPublisher q) p) : p ≠ q ∧ Owns t p := by
  unfold forgetPublisher at h
  split at h
  · rename_i hnone
    refine ⟨?_, h⟩
    rintro rfl
    obtain ⟨keys, hrow⟩ := h
    rw [hnone] at hrow
    cases hrow
  · obtain ⟨keys, hrow⟩ := h
    rw [remove_all_untracked_rows] at hrow
    obtain ⟨hne, hrow⟩ := (Maps.lookup_erase _ _ _ _).mp hrow
    exact ⟨hne, keys, hrow⟩

end Owners

/-- What the server keeps about injects without a socket goes back to the ids it has on record. -/
structure Booked (st : Stage) : Prop where
  traced : Traced st
  claims : ∀ k id, st.server.activePublishRoutes.lookup k = some id →
    isExternalPublisherId id = true → st.server.externalRouteIds.lookup k = some id
  frames : ∀ f, f ∈ st.batch ∨ f ∈ st.server.pendingInjectedRelay →
    isExternalPublisherId f.publisherConnId = true →
    st.server.externalRouteIds.lookup f.route = some f.publisherConnId
  owners : ∀ p, Owns st.server.cache p → isExternalPublisherId p = true →
    ∃ k, st.server.externalRouteIds.lookup k = some p
  seen : ∀ k, (st.server.injectRouteLastSeen.lookup k).isSome =
    (st.server.externalRouteIds.lookup k).isSome

section Releases

variable {s : Server}

structure Released (keys : List RouteKey) (s s' : Server) : Prop where
  ids : ∀ k, s'.externalRouteIds.lookup k =
    if k ∈ keys then none else s.externalRouteIds.lookup k
  seen : ∀ k, s'.injectRouteLastSeen.lookup k =
    if k ∈ keys then none else s.injectRouteLastSeen.lookup k
  routes : ∀ k d, s'.activePublishRoutes.lookup k = some d →
    s.activePublishRoutes.lookup k = some d ∧
      (k ∈ keys → s.externalRouteIds.lookup k ≠ some d)
  queue : ∀ f ∈ s'.pendingInjectedRelay, f ∈ s.pendingInjectedRelay ∧ f.route ∉ keys
  owners : ∀ p, Owns s'.cache p → Owns s.cache p ∧
    ∀ k ∈ keys, s.externalRouteIds.lookup k ≠ some p

theorem erase_lookup {α : Type} (m : AList (fun _ : RouteKey => α)) (route k : RouteKey) :
    (m.erase route).lookup k = if k ∈ [route] then none else m.lookup k := by
  by_cases hk : k = route
  · subst hk
    simp
  · simp [hk, AList.lookup_erase_ne hk]

/-- One route is released. -/
theorem release_released (s : Server) (route : RouteKey) :
    Released [route] s (s.releaseInjectedRoute route) := by
  have hqueue : ∀ f ∈ s.pendingInjectedRelay.filter (fun f => f.route ≠ route),
      f ∈ s.pendingInjectedRelay ∧ f.route ∉ [route] := by
    intro f hf
    simpa using hf
  unfold Server.releaseInjectedRoute
  dsimp only
  cases hid : s.externalRouteIds.lookup route with
  | none =>
    dsimp only
    have hnone : ∀ k ∈ [route], s.externalRouteIds.lookup k = none := by
      intro k hin
      cases List.mem_singleton.mp hin
      exact hid
    refine ⟨fun k => ?_, erase_lookup _ route, ?_, hqueue, ?_⟩
    · by_cases hin : k ∈ [route]
      · rw [if_pos hin, hnone k hin]
      · rw [if_neg hin]
    · exact fun k d hk => ⟨hk, fun hin => by simp [hnone k hin]⟩
    · exact fun p hp => ⟨hp, fun k hin => by simp [hnone k hin]⟩
  | some id =>
    dsimp only
    refine ⟨erase_lookup _ route, erase_lookup _ route, fun k d hk => ?_, hqueue, fun p hp => ?_⟩
    · by_cases howner : s.activePublishRoutes.lookup route = some id
      · rw [if_pos howner] at hk
        obtain ⟨hne, hk⟩ := (Maps.lookup_erase _ _ _ _).mp hk
        exact ⟨hk, fun hin => absurd (List.mem_singleton.mp hin) hne⟩
      · rw [if_neg howner] at hk
        refine ⟨hk, fun hin heq => howner ?_⟩
        cases List.mem_singleton.mp hin
        rw [hk, ← heq, hid]
    · obtain ⟨hne, hp⟩ := forget_owns hp
      refine ⟨hp, fun k hin heq => hne ?_⟩
      cases List.mem_singleton.mp hin
      rw [hid] at heq
      exact (Option.some.inj heq).symm

/-- Releases one after the other. -/
theorem Released.cons {route : RouteKey} {keys : List RouteKey} {s s' s'' : Server}
    (h : Released [route] s s') (h' : Released keys s' s'') :
    Released (route :: keys) s s'' := by
  have hkept : ∀ k d, k ∈ route :: keys → (k ∈ [route] → s.externalRouteIds.lookup k ≠ some d) →
      (k ∈ keys → s'.externalRouteIds.lookup k ≠ some d) →
      s.externalRouteIds.lookup k ≠ some d := by
    intro k d hin hhead hrest
    by_cases hk : k = route
    · exact hhead (List.mem_singleton.mpr hk)
    · have hmem := (List.mem_cons.mp hin).resolve_left hk
      have hsame := h.ids k
      rw [if_neg (by simpa using hk)] at hsame
      exact hsame ▸ hrest hmem
  constructor
  · intro k
    rw [h'.ids, h.ids]
    by_cases hk : k = route <;> by_cases hin : k ∈ keys <;> simp [hk, hin]
  · intro k
    rw [h'.seen, h.seen]
    by_cases hk : k = route <;> by_cases hin : k ∈ keys <;> simp [hk, hin]
  · intro k d hk
    obtain ⟨hk', hrest⟩ := h'.routes k d hk
    obtain ⟨hk'', hhead⟩ := h.routes k d hk'
    exact ⟨hk'', fun hin => hkept k d hin hhead hrest⟩
  · intro f hf
    obtain ⟨hf', hrest⟩ := h'.queue f hf
    obtain ⟨hf'', hhead⟩ := h.queue f hf'
    exact ⟨hf'', by simpa [hrest] using hhead⟩
  · intro p hp
    obtain ⟨hp', hrest⟩ := h'.owners p hp
    obtain ⟨hp'', hhead⟩ := h.owners p hp'
    exact ⟨hp'', fun k hin => hkept k p hin (hhead k) (hrest k)⟩

theorem release_each_released (keys : List RouteKey) (s : Server) :
    Released keys s (keys.foldl Server.releaseInjectedRoute s) := by
  induction keys generalizing s with
  | nil =>
    refine ⟨fun k => ?_, fun k => ?_, ?_, ?_, ?_⟩
    · simp
    · simp
    · exact fun k d hk => ⟨hk, by simp⟩
    · exact fun f hf => ⟨hf, by simp⟩
    · exact fun p hp => ⟨hp, by simp⟩
  | cons route keys ih => exact (release_released s route).cons (ih _)

theorem mem_injected_routes {k : RouteKey} : k ∈ s.injectedRoutes ↔
    ∃ d, s.activePublishRoutes.lookup k = some d ∧ isExternalPublisherId d = true := by
  unfold Server.injectedRoutes
  rw [List.mem_map]
  constructor
  · rintro ⟨⟨k, d⟩, he, rfl⟩
    obtain ⟨he, hext⟩ := List.mem_filter.mp he
    exact ⟨d, Maps.lookup_iff_mem.mpr he, hext⟩
  · rintro ⟨d, hk, hext⟩
    exact ⟨⟨k, d⟩, List.mem_filter.mpr ⟨Maps.lookup_iff_mem.mp hk, hext⟩, rfl⟩

end Releases

section Steps

variable {cfg : CacheConfig} {st st' : Stage}

/-- A step that records no id and forgets none. -/
theorem Booked.keep (h : Booked st) (ht : Traced st')
    (hids : st'.server.externalRouteIds = st.server.externalRouteIds)
    (hseen : st'.server.injectRouteLastSeen = st.server.injectRouteLastSeen)
    (hroutes : ∀ k id, isExternalPublisherId id = true →
      st'.server.activePublishRoutes.lookup k = some id →
      st.server.activePublishRoutes.lookup k = some id)
    (hframes : ∀ f, f ∈ st'.batch ∨ f ∈ st'.server.pendingInjectedRelay →
      isExternalPublisherId f.publisherConnId = true →
      f ∈ st.batch ∨ f ∈ st.server.pendingInjectedRelay)
    (howners : ∀ p, Owns st'.server.cache p → isExternalPublisherId p = true →
      Owns st.server.cache p ∨ ∃ f ∈ st.batch, p = f.publisherConnId) : Booked st' := by
  constructor
  · exact ht
  · intro k id hk hext
    rw [hids]
    exact h.claims k id (hroutes k id hext hk) hext
  · intro f hf hext
    rw [hids]
    exact h.frames f (hframes f hf hext) hext
  · intro p hp hext
    rw [hids]
    rcases howners p hp hext with hp | ⟨f, hf, rfl⟩
    · exact h.owners p hp hext
    · exact ⟨f.route, h.frames f (.inl hf) hext⟩
  · intro k
    rw [hids, hseen]
    exact h.seen k

/-- Of the frames taken into a batch, only those injected are of external publishers. -/
theorem external_queued (h : Traced st) {f : RelayFrame} (hf : f ∈ st.server.queued)
    (hext : isExternalPublisherId f.publisherConnId = true) :
    f ∈ st.server.pendingInjectedRelay := by
  rcases mem_queued.mp hf with horphan | ⟨c, hc, hfc⟩ | hinjected
  · have hbelow := Nat.lt_of_lt_of_le (h.orphans f horphan).1 h.tenancy.range.2
    rw [socket_id_inside hbelow] at hext
    cases hext
  · rw [h.mine c hc f hfc, h.tenancy.socket hc] at hext
    cases hext
  · exact hinjected

theorem drain_one_owns {s : Server} {i p : Nat}
    (h : Owns (Server.drainOne ([], s) i).2.cache p) : Owns s.cache p := by
  unfold Server.drainOne at h
  dsimp only at h
  split at h
  · exact h
  · exact release_keys_owns h

theorem drain_one_rest (s : Server) (i : Nat) :
    (Server.drainOne ([], s) i).2.externalRouteIds = s.externalRouteIds ∧
      (Server.drainOne ([], s) i).2.injectRouteLastSeen = s.injectRouteLastSeen ∧
      (Server.drainOne ([], s) i).2.activePublishRoutes = s.activePublishRoutes ∧
      (Server.drainOne ([], s) i).2.pendingInjectedRelay = s.pendingInjectedRelay := by
  unfold Server.drainOne
  dsimp only
  split <;> exact ⟨rfl, rfl, rfl, rfl⟩

/-- The other steps of a pass keep them right as well. -/
theorem Booked.calm (h : Booked st) (hs : st.Calm cfg st') : Booked st' := by
  have ht := h.traced.step (.inl (.inl hs))
  cases hs with
  | aside connections ha =>
    exact h.keep ht rfl rfl (fun _ _ _ hk => hk) (fun _ hf _ => hf) fun _ hp _ => .inl hp
  | replay i c hc =>
    exact h.keep ht rfl rfl (fun _ _ _ hk => hk) (fun _ hf _ => hf) fun _ hp _ => .inl hp
  | drain i _ =>
    obtain ⟨hids, hseen, hroutes, hqueue⟩ := drain_one_rest st.server i
    exact h.keep ht hids hseen (fun _ _ _ hk => hroutes ▸ hk) (fun _ hf _ => hqueue ▸ hf)
      fun _ hp _ => .inl (drain_one_owns hp)
  | trim abandoned _ _ =>
    exact h.keep ht rfl rfl (fun _ _ _ hk => hk) (fun _ hf _ => hf) fun _ hp _ => .inl hp
  | take _ _ =>
    refine h.keep ht rfl rfl (fun _ _ _ hk => hk) (fun f hf hext => ?_) fun _ hp _ => .inl hp
    rcases hf with hf | hf
    · exact .inr (external_queued h.traced (mem_batch.mp hf) hext)
    · cases hf
  | handle frame rest abandoned connections cache events hb _ _ _ hc =>
    refine h.keep ht rfl rfl (fun _ _ _ hk => hk) (fun f hf _ => ?_) fun p hp _ => ?_
    · exact hf.imp_left fun hf => hb ▸ List.mem_cons_of_mem _ hf
    · rw [hc] at hp
      unfold Server.cacheRelayFrameUnlessOrphaned at hp
      split at hp
      · exact (cache_frame_owns hp).imp_right fun hp => ⟨frame, hb ▸ List.mem_cons_self, hp⟩
      · exact .inl hp
  | requeue frame rest hb =>
    have hrest : ∀ f ∈ rest, f ∈ st.batch := fun f hf => hb ▸ List.mem_cons_of_mem _ hf
    cases hext : isExternalPublisherId frame.publisherConnId with
    | true =>
      rw [requeue_external hext] at ht ⊢
      refine h.keep ht rfl rfl (fun _ _ _ hk => hk) (fun f hf _ => ?_) fun _ hp _ => .inl hp
      rcases hf with hf | hf
      · exact .inl (hrest f hf)
      · rcases List.mem_append.mp hf with hf | hf
        · exact .inr hf
        · exact .inl (List.mem_singleton.mp hf ▸ hb ▸ List.mem_cons_self)
    | false =>
      obtain ⟨connections, orphaned, heq⟩ := requeue_socket (s := st.server) hext
      rw [heq] at ht ⊢
      exact h.keep ht rfl rfl (fun _ _ _ hk => hk) (fun f hf _ => hf.imp_left (hrest f))
        fun _ hp _ => .inl hp

section Recording

variable {s s' : Server} {route : RouteKey} {id : Nat}

structure Records (route : RouteKey) (id : Nat) (old new : AList (fun _ : RouteKey => Nat)) :
    Prop where
  lookup : ∀ k, new.lookup k = if k = route then some id else old.lookup k
  same : ∀ d, old.lookup route = some d → d = id

theorem records_known {ids : AList (fun _ : RouteKey => Nat)} (h : ids.lookup route = some id) :
    Records route id ids ids := by
  refine ⟨fun k => ?_, fun d hd => Option.some.inj (hd.symm.trans h)⟩
  by_cases hk : k = route
  · rw [if_pos hk, hk, h]
  · rw [if_neg hk]

theorem records_new {ids : AList (fun _ : RouteKey => Nat)} (h : ids.lookup route = none) :
    Records route id ids (ids.insert route id) := by
  refine ⟨fun k => ?_, fun d hd => ?_⟩
  · by_cases hk : k = route
    · rw [if_pos hk, hk, AList.lookup_insert]
    · rw [if_neg hk, AList.lookup_insert_ne hk]
  · rw [h] at hd
    cases hd

theorem external_id_records (s : Server) (route : RouteKey) : ∃ ids seq,
    (s.externalPublisherIdForRoute route).2 =
      { s with externalRouteIds := ids, externalRouteSeq := seq } ∧
    Records route (s.externalPublisherIdForRoute route).1 s.externalRouteIds ids := by
  unfold Server.externalPublisherIdForRoute
  cases hid : s.externalRouteIds.lookup route with
  | some old => exact ⟨_, _, rfl, records_known hid⟩
  | none => exact ⟨_, _, rfl, records_new hid⟩

/-- An inject records its route under the id it uses, if it was not recorded so before. -/
theorem claim_for_inject_records (hs : s.claimForInject route = .ok (id, s')) :
    ∃ routes ids seq, s' = { s with
        activePublishRoutes := routes, externalRouteIds := ids, externalRouteSeq := seq } ∧
      (∀ k d, routes.lookup k = some d →
        (k = route ∧ d = id) ∨ s.activePublishRoutes.lookup k = some d) ∧
      Records route id s.externalRouteIds ids := by
  unfold Server.claimForInject at hs
  split at hs
  · split at hs
    · rename_i hid
      cases hs
      exact ⟨_, _, _, rfl, fun _ _ hk => .inr hk, records_known hid⟩
    · cases hs
  · split at hs
    · cases hs
    · obtain ⟨ids, seq, heq, hrecords⟩ := external_id_records s route
      generalize s.externalPublisherIdForRoute route = r at hs heq hrecords
      obtain ⟨d, t⟩ := r
      cases heq
      cases hs
      refine ⟨_, _, _, rfl, fun k e hk => ?_, hrecords⟩
      rcases (Maps.lookup_insert _ _ _ _ _).mp hk with ⟨hk, hd⟩ | ⟨_, hk⟩
      · exact .inl ⟨hk, hd.symm⟩
      · exact .inr hk

end Recording

/-- An inject takes an id from the record, or enters a new one. -/
theorem Booked.inject (h : Booked st) {now : Nat} {route : RouteKey} {frameType : FrameType}
    {timestamp : UInt32} {payload : List UInt8} {s : Server} {past : List ServerEvent}
    (hs : st.server.injectRelayFrame cfg.codec now route frameType timestamp payload = .ok s)
    (ht : Traced { st with server := s, past }) : Booked { st with server := s, past } := by
  obtain ⟨id, t, hclaim, rfl⟩ := inject_spec hs
  obtain ⟨routes, ids, seq, rfl, hroutes, hids, hold⟩ := claim_for_inject_records hclaim
  have hkeep : ∀ k d, st.server.externalRouteIds.lookup k = some d → ids.lookup k = some d := by
    intro k d hk
    rw [hids]
    split
    · rename_i heq
      rw [hold d (heq ▸ hk)]
    · exact hk
  have hnew : ids.lookup route = some id := by rw [hids, if_pos rfl]
  constructor
  · exact ht
  · intro k d hk hext
    rcases hroutes k d hk with ⟨rfl, rfl⟩ | hk
    · exact hnew
    · exact hkeep k d (h.claims k d hk hext)
  · intro f hf hext
    rcases hf with hf | hf
    · exact hkeep _ _ (h.frames f (.inl hf) hext)
    · rcases List.mem_append.mp hf with hf | hf
      · exact hkeep _ _ (h.frames f (.inr hf) hext)
      · cases List.mem_singleton.mp hf
        exact hnew
  · intro p hp hext
    obtain ⟨k, hk⟩ := h.owners p hp hext
    exact ⟨k, hkeep k p hk⟩
  · intro k
    dsimp only
    by_cases hk : k = route
    · rw [hk, hnew, AList.lookup_insert]
      rfl
    · rw [AList.lookup_insert_ne hk, hids, if_neg hk]
      exact h.seen k

theorem Booked.release (h : Booked st) {route : RouteKey} {past : List ServerEvent}
    (hb : st.batch = [])
    (ht : Traced { st with server := st.server.releaseInjectedRoute route, past }) :
    Booked { st with server := st.server.releaseInjectedRoute route, past } := by
  have hr := release_released st.server route
  constructor
  · exact ht
  · intro k d hk hext
    obtain ⟨hk', hfree⟩ := hr.routes k d hk
    have hid := h.claims k d hk' hext
    have hout : k ∉ [route] := fun hin => hfree hin hid
    exact (hr.ids k).trans (by rw [if_neg hout, hid])
  · intro f hf hext
    rcases hf with hf | hf
    · simp [hb] at hf
    · obtain ⟨hf', hout⟩ := hr.queue f hf
      exact (hr.ids _).trans (by rw [if_neg hout, h.frames f (.inr hf') hext])
  · intro p hp hext
    obtain ⟨hp', hfree⟩ := hr.owners p hp
    obtain ⟨k, hk⟩ := h.owners p hp' hext
    have hout : k ∉ [route] := fun hin => hfree k hin hk
    exact ⟨k, (hr.ids k).trans (by rw [if_neg hout, hk])⟩
  · intro k
    dsimp only
    rw [hr.seen, hr.ids]
    split
    · rfl
    · exact h.seen k

/-- The steps of the host and of the peers keep the books right. -/
theorem Booked.stir (h : Booked st) (hs : st.Stir cfg st') : Booked st' := by
  have ht := h.traced.step (.inl (.inr hs))
  cases hs with
  | act i c act hc ha _ =>
    have hmem := List.mem_of_getElem? hc
    have hten := h.traced.tenancy.tenants c hmem
    have hothers := (tenant_path (fun hj => hj) hten
      (perform_path cfg.codec act ha hten.seated hten.named)).2.2
    refine h.keep ht rfl rfl (fun k d hext hk => ?_) (fun _ hf _ => hf) fun _ hp _ => .inl hp
    refine hothers k d (fun hd => ?_) hk
    have hsocket := h.traced.tenancy.socket hmem
    rw [hd] at hext
    exact absurd (hext.symm.trans hsocket) Bool.false_ne_true.symm
  | detach i c claimed _ _ _ _ =>
    exact h.keep ht rfl rfl (fun _ _ _ hk => hk) (fun _ hf _ => hf) fun _ hp _ => .inl hp
  | remove i c hc _ =>
    obtain ⟨orphaned, heq⟩ := remove_server hc
    rw [heq] at ht ⊢
    exact h.keep ht rfl rfl (fun _ _ _ hk => ((release_all_lookup _ _ _ _).mp hk).1)
      (fun _ hf _ => hf) fun _ hp _ => .inl (forget_owns hp).2
  | vacate connId =>
    exact h.keep ht rfl rfl (fun _ _ _ hk => ((release_all_lookup _ _ _ _).mp hk).1)
      (fun _ hf _ => hf) fun _ hp _ => .inl hp
  | adjust i c c' _ _ =>
    exact h.keep ht rfl rfl (fun _ _ _ hk => hk) (fun _ hf _ => hf) fun _ hp _ => .inl hp
  | accept now transport fd =>
    unfold Server.addConnection at ht ⊢
    split at ht
    · rename_i hfull
      rw [if_pos hfull]
      exact h
    · rename_i hfree
      rw [if_neg hfree]
      exact h.keep ht rfl rfl (fun _ _ _ hk => hk) (fun _ hf _ => hf) fun _ hp _ => .inl hp
  | inject now route frameType timestamp payload s hs _ => exact h.inject hs ht
  | release route hb => exact h.release hb ht
  | forget route hfree =>
    have hnone : st.server.externalRouteIds.lookup route = none := by
      unfold Server.holdsInjected at hfree
      rw [Bool.or_eq_false_iff] at hfree
      simpa using hfree.1
    refine ⟨ht, h.claims, h.frames, h.owners, fun k => ?_⟩
    have hseen := h.seen k
    dsimp only
    rw [erase_lookup]
    split
    · rename_i hin
      cases List.mem_singleton.mp hin
      rw [hnone]
    · exact hseen
  | tune settings =>
    exact h.keep ht rfl rfl (fun _ _ _ hk => hk) (fun _ hf _ => hf) fun _ hp _ => .inl hp
  | lead injectFirst =>
    exact h.keep ht rfl rfl (fun _ _ _ hk => hk) (fun _ hf _ => hf) fun _ hp _ => .inl hp

theorem Booked.stages (h : Booked st) (hs : Stages cfg st st') : Booked st' := by
  induction hs with
  | refl => exact h
  | tail _ hmove ih =>
    rcases hmove with hcalm | hstir
    · exact ih.calm hcalm
    · exact ih.stir hstir

theorem booked_new (settings : ServerSettings) : Booked ⟨{ settings }, [], []⟩ := by
  refine ⟨traced_new settings, fun k id hk => ?_, fun f hf => ?_, ?_, fun k => rfl⟩
  · cases hk
  · simp at hf
  · rintro p ⟨keys, hrow⟩
    cases hrow

end Steps

def StillClaimed (s : Server) : Prop :=
  ∀ k id, s.externalRouteIds.lookup k = some id → s.activePublishRoutes.lookup k = some id

structure Cleared (s : Server) : Prop where
  routes : ∀ k id, s.activePublishRoutes.lookup k = some id → isExternalPublisherId id = false
  owners : ∀ p, Owns s.cache p → isExternalPublisherId p = false
  entries : ∀ k, s.cache.contains k = true →
    ∃ p, Tracks s.cache p k ∧ isExternalPublisherId p = false
  queue : s.pendingInjectedRelay = []
  ids : s.externalRouteIds = ∅
  seen : s.injectRouteLastSeen = ∅

section Cleanup

variable {cfg : CacheConfig} {s : Server} {past : List ServerEvent}

/-- The routes on record that a release of all injected routes does not reach. -/
theorem unreleased_iff (h : Booked ⟨s, [], past⟩) {k : RouteKey} {id : Nat}
    (hk : s.externalRouteIds.lookup k = some id) :
    k ∈ s.injectedRoutes ↔ s.activePublishRoutes.lookup k = some id := by
  rw [mem_injected_routes]
  constructor
  · rintro ⟨d, hd, hext⟩
    have hid := h.claims k d hd hext
    rwa [Option.some.inj (hk.symm.trans hid)]
  · intro howner
    exact ⟨id, howner, h.traced.tenancy.external k id hk⟩

theorem still_claimed_iff (h : Booked ⟨s, [], past⟩) {s' : Server}
    (hr : Released s.injectedRoutes s s') :
    StillClaimed s ↔ ∀ k, s'.externalRouteIds.lookup k = none := by
  constructor
  · intro hc k
    rw [hr.ids]
    split
    · rfl
    · rename_i hout
      cases hk : s.externalRouteIds.lookup k with
      | none => rfl
      | some id => exact absurd ((unreleased_iff h hk).mpr (hc k id hk)) hout
  · intro hnone k id hk
    have hleft := hnone k
    rw [hr.ids] at hleft
    split at hleft
    · rename_i hin
      exact (unreleased_iff h hk).mp hin
    · rw [hk] at hleft
      cases hleft

/-- Releasing all leaves nothing behind if and only if each route on record is still claimed. -/
theorem release_all_cleared_iff (h : Booked ⟨s, [], past⟩) (hb : Bounded cfg s.cache) :
    Cleared s.releaseAllInjectedRoutes ↔ StillClaimed s := by
  have hr := release_each_released s.injectedRoutes s
  have hleft := h.stages (release_stages cfg s.injectedRoutes ⟨s, [], past⟩ rfl)
  have howned := ((bounded_invariant cfg).release_all hb).owned
  unfold Server.releaseAllInjectedRoutes at howned ⊢
  rw [still_claimed_iff h hr]
  generalize s.injectedRoutes.foldl Server.releaseInjectedRoute s = t at hleft howned
  constructor
  · intro hc k
    have hseen := hleft.seen k
    have hnone : t.injectRouteLastSeen = ∅ := hc.seen
    rw [hnone] at hseen
    cases hk : t.externalRouteIds.lookup k with
    | none => rfl
    | some id => simp [hk] at hseen
  · intro hnone
    have howners : ∀ p, Owns t.cache p → isExternalPublisherId p = false := by
      intro p hp
      by_contra hext
      obtain ⟨k, hk⟩ := hleft.owners p hp (by simpa using hext)
      rw [hnone k] at hk
      cases hk
    constructor
    · intro k id hk
      by_contra hext
      have hid := hleft.claims k id hk (by simpa using hext)
      rw [hnone k] at hid
      cases hid
    · exact howners
    · intro k hk
      obtain ⟨p, keys, hrow, hmem⟩ := (howned.keys k).mp hk
      exact ⟨p, ⟨keys, hrow, hmem⟩, howners p ⟨keys, hrow⟩⟩
    · refine List.eq_nil_iff_forall_not_mem.mpr fun f hf => ?_
      have hid := hleft.frames f (.inr hf) (hleft.traced.injected f hf)
      rw [hnone] at hid
      cases hid
    · rfl
    · refine Maps.eq_empty_of_lookup fun k => ?_
      have hseen := hleft.seen k
      rw [hnone k] at hseen
      simpa using hseen

/-- A stopped server has nothing left of injects if each route on record was still claimed. -/
theorem stop_cleared (h : Booked ⟨s, [], past⟩) (hc : StillClaimed s) : Cleared s.stop := by
  obtain ⟨routes, heq, hroutes⟩ := release_every s.connections s
  unfold Server.stop Server.releaseAllInjectedRoutes
  dsimp only
  rw [heq]
  have hr := release_each_released
    ({ s with activePublishRoutes := routes, connections := [] } : Server).injectedRoutes
    { s with activePublishRoutes := routes, connections := [] }
  have hkept : ∀ k id, isExternalPublisherId id = true →
      (routes.lookup k = some id ↔ s.activePublishRoutes.lookup k = some id) := by
    intro k id hext
    rw [hroutes]
    refine and_iff_left fun hmem => ?_
    obtain ⟨c, hin, rfl⟩ := List.mem_map.mp hmem
    rw [h.traced.tenancy.socket hin] at hext
    cases hext
  constructor
  · intro k id hk
    by_contra hext
    have hext' : isExternalPublisherId id = true := by simpa using hext
    obtain ⟨hk', hfree⟩ := hr.routes k id hk
    refine hfree (mem_injected_routes.mpr ⟨id, hk', hext'⟩) ?_
    exact h.claims k id ((hkept k id hext').mp hk') hext'
  · rintro p ⟨keys, hrow⟩
    cases hrow
  · intro k hk
    cases hk
  · rfl
  · rfl
  · refine Maps.eq_empty_of_lookup fun k => (hr.seen k).trans ?_
    split
    · rfl
    · rename_i hout
      have hseen := h.seen k
      cases hk : s.externalRouteIds.lookup k with
      | none =>
        rw [hk] at hseen
        simpa using hseen
      | some id =>
        have hext := h.traced.tenancy.external k id hk
        have howner := (hkept k id hext).mpr (hc k id hk)
        exact absurd (mem_injected_routes.mpr ⟨id, howner, hext⟩) hout

theorem Cleared.booked (hc : Cleared s) (ht : Traced ⟨s, [], past⟩) : Booked ⟨s, [], past⟩ := by
  refine ⟨ht, fun k id hk hext => ?_, fun f hf => ?_, fun p hp hext => ?_, fun k => ?_⟩
  · exact absurd (hext.symm.trans (hc.routes k id hk)) Bool.false_ne_true.symm
  · simp [hc.queue] at hf
  · exact absurd (hext.symm.trans (hc.owners p hp)) Bool.false_ne_true.symm
  · simp [hc.ids, hc.seen]

theorem Booked.exec (h : Booked ⟨s, [], past⟩) (hb : Bounded cfg s.cache) (op : ServerOp)
    (hc : resets op = true → StillClaimed s) :
    Booked ⟨(op.exec cfg s).1, [], past ++ (op.exec cfg s).2⟩ := by
  cases hr : resets op with
  | false => exact h.stages (exec_stages cfg s past op hr)
  | true =>
    have ht := h.traced.course (exec_course cfg s past op)
    refine Cleared.booked ?_ ht
    cases op with
    | releaseAllInjected => exact (release_all_cleared_iff h hb).mpr (hc hr)
    | stop => exact stop_cleared h (hc hr)
    | _ => cases hr

/-- The records stay complete as long as they are only wiped while every route is claimed. -/
theorem Booked.run (h : Booked ⟨s, [], past⟩) (hb : Bounded cfg s.cache) (ops : List ServerOp)
    (hc : ∀ pre op post, ops = pre ++ op :: post → resets op = true →
      StillClaimed (Server.run cfg s pre).1) :
    Booked ⟨(Server.run cfg s ops).1, [], past ++ (Server.run cfg s ops).2⟩ := by
  induction ops generalizing s past with
  | nil => simpa [Server.run] using h
  | cons op ops ih =>
    have hnext := h.exec hb op (hc [] op ops rfl)
    have hbounded : Bounded cfg (op.exec cfg s).1.cache := by
      have hcourse := exec_course cfg s past op
      have hstart : Bounded cfg (Stage.mk s [] past).server.cache := hb
      exact hstart.course hcourse
    have hrest := ih hnext hbounded fun pre op' post heq =>
      hc (op :: pre) op' post (congrArg (List.cons op) heq)
    rw [List.append_assoc] at hrest
    exact hrest

end Cleanup

/-- In every run that wiped the ids of injected routes only while all of them were claimed, a
release of all injected routes leaves nothing behind if and only if every route on record is
still claimed under its id. -/
theorem release_all_leaves_nothing_iff (cfg : CacheConfig) (settings : ServerSettings)
    (ops : List ServerOp)
    (h : ∀ pre op post, ops = pre ++ op :: post → resets op = true →
      StillClaimed (Server.run cfg { settings } pre).1) :
    Cleared (Server.run cfg { settings } ops).1.releaseAllInjectedRoutes ↔
      StillClaimed (Server.run cfg { settings } ops).1 := by
  have hbooked := (booked_new settings).run (bounded_empty cfg) ops h
  have hrun := run_stages cfg { settings } [] ops
  generalize Server.run cfg { settings } ops = r at hbooked hrun ⊢
  have hempty : Bounded cfg (Stage.mk { settings } [] []).server.cache := bounded_empty cfg
  exact release_all_cleared_iff hbooked (hempty.course hrun)

section Runs

theorem still_claimed_of_entries {s : Server}
    (h : ∀ e ∈ s.externalRouteIds.entries, s.activePublishRoutes.lookup e.1 = some e.2) :
    StillClaimed s :=
  fun _ _ hk => h _ (Maps.lookup_iff_mem.mp hk)

def injectsHeader : ServerOp := .inject 0 ("live", "cam") .audio 0 [0xAF, 0x00, 0x12, 0x10]

/-- A feed is injected, released with all others, and injected again. -/
def injectedTwice : List ServerOp := [injectsHeader, .releaseAllInjected, injectsHeader]

theorem injected_twice_cleared :
    (Server.run mediaConfig {} injectedTwice).1.pendingInjectedRelay.length = 1 ∧
      Cleared (Server.run mediaConfig {} injectedTwice).1.releaseAllInjectedRoutes := by
  refine ⟨by decide +kernel, (release_all_leaves_nothing_iff mediaConfig {} injectedTwice ?_).mpr
    (still_claimed_of_entries (by decide +kernel))⟩
  intro pre op post heq hr
  have hpre : pre <+: injectedTwice := ⟨op :: post, heq.symm⟩
  have hall : ∀ q ∈ injectedTwice.inits, ∀ e ∈ (Server.run mediaConfig {} q).1.externalRouteIds.entries,
      (Server.run mediaConfig {} q).1.activePublishRoutes.lookup e.1 = some e.2 := by decide +kernel
  exact still_claimed_of_entries (hall pre ((List.mem_inits _ _).mpr hpre))

def forcesRelease (name : String) : Inbound :=
  .message { onReleaseStream := some fun _ _ _ => true } (.command (.releaseStream (some name)))
    10 []

/-- A feed is injected and cached, and a peer then releases its route by force. -/
def forcedOut : List ServerOp :=
  [injectsHeader, .accept 0 ⟨false⟩ 3, hears fun _ => joins ++ [forcesRelease "cam"]]

/-- The id of the feed is forgotten, but its cache entry and the time it was last seen stay. -/
theorem forced_out_route_left_behind :
    let s := (Server.run mediaConfig {} forcedOut).1.releaseAllInjectedRoutes
    (s.externalRouteIds.entries = [] ∧ s.cache.contains ("live", "cam") = true ∧
      s.cache.publisherCacheKeys.keys.all isExternalPublisherId = true ∧
      s.injectRouteLastSeen.keys = [("live", "cam")]) ∧ ¬ Cleared s := by
  intro s
  have hleft : s.injectRouteLastSeen.keys = [("live", "cam")] := by decide +kernel
  refine ⟨by decide +kernel, fun hc => ?_⟩
  rw [hc.seen] at hleft
  cases hleft

end Runs

end LibRtmp.Proofs
