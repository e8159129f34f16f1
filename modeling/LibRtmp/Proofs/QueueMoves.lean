import LibRtmp.Proofs.ActMoves

namespace LibRtmp.Proofs

open Actions
open Relation (ReflTransGen)

section Ledgers

variable {cause : Cause} {l l' : Ledger}

structure Adds (l l' : Ledger) (frames : List RelayFrame) : Prop where
  connId : l'.connId = l.connId
  evictions : l'.evictions = l.evictions
  relay : l'.relay = l.relay ++ frames
  mine : ∀ f ∈ frames, f.publisherConnId = l.connId
  abandoned : ∀ k, k ∈ l'.abandoned ↔ k ∈ l.abandoned ∧ ∀ f ∈ frames, f.route ≠ k

theorem queues_add (h : ReflTransGen (Ledger.Queues cause) l l') : ∃ frames, Adds l l' frames := by
  induction h with
  | refl => exact ⟨[], rfl, rfl, (List.append_nil _).symm, by simp, by simp⟩
  | tail _ hq ih =>
    obtain ⟨frames, hid, hev, hrelay, hmine, habandoned⟩ := ih
    obtain ⟨frame, _, hf⟩ := hq
    refine ⟨frames ++ [frame], hid, hev, ?_, ?_, ?_⟩
    · rw [← List.append_assoc, ← hrelay]
    · intro f hmem
      rcases List.mem_append.mp hmem with hmem | hmem
      · exact hmine f hmem
      · rw [List.mem_singleton.mp hmem, hf, hid]
    · intro k
      rw [List.mem_filter, habandoned]
      simp only [decide_eq_true_eq, List.mem_append, List.mem_singleton]
      constructor
      · rintro ⟨⟨hk, hrest⟩, hne⟩
        refine ⟨hk, fun f hmem => hmem.elim (hrest f) ?_⟩
        rintro rfl
        exact fun he => hne he.symm
      · rintro ⟨hk, hrest⟩
        exact ⟨⟨hk, fun f hmem => hrest f (.inl hmem)⟩, fun he => hrest frame (.inr rfl) he.symm⟩

/-- It drops frames at most, and lifts no bar; without an eviction it drops none. -/
structure Settles (cause : Cause) (l l' : Ledger) : Prop where
  connId : l'.connId = l.connId
  relay : l'.relay.Sublist l.relay
  bars : ∀ k, l.Bars k → l'.Bars k
  kept : cause.discards ∨ l'.evictions ≠ [] ∨
    (l'.relay = l.relay ∧ l'.evictions = l.evictions ∧ l'.abandoned = l.abandoned)

theorem Settles.step {m : Ledger} (hi : ¬ cause.injects) (h : Settles cause l m)
    (hs : m.Step cause l') : Settles cause l l' := by
  cases hs with
  | evict relay evictions abandoned hr he hb =>
    exact ⟨h.connId, hr.trans h.relay, fun k hk => hb k (h.bars k hk), .inr (.inl he)⟩
  | restore evictions hinject => exact absurd hinject hi
  | discard hd => exact ⟨h.connId, List.nil_sublist _, fun k _ => .inr (.inr (by simp)), .inl hd⟩
  | enter _ _ => exact ⟨h.connId, h.relay, h.bars, h.kept⟩
  | advance _ => exact ⟨h.connId, h.relay, h.bars, h.kept⟩
  | openStream _ _ => exact ⟨h.connId, h.relay, h.bars, h.kept⟩
  | idle => exact ⟨h.connId, h.relay, h.bars, h.kept⟩
  | forget _ => exact ⟨h.connId, h.relay, h.bars, h.kept⟩
  | wait _ _ _ _ _ => exact ⟨h.connId, h.relay, h.bars, h.kept⟩
  | grant _ _ _ => exact ⟨h.connId, h.relay, h.bars, h.kept⟩
  | reroute _ _ _ _ => exact ⟨h.connId, h.relay, h.bars, h.kept⟩
  | revoke _ _ => exact ⟨h.connId, h.relay, h.bars, h.kept⟩

theorem steps_settle (hi : ¬ cause.injects) (h : Path cause l l') : Settles cause l l' := by
  induction h with
  | refl => exact ⟨rfl, .refl _, fun _ hk => hk, .inr (.inr ⟨rfl, rfl, rfl⟩)⟩
  | tail _ hs ih => exact ih.step hi hs

end Ledgers

section Injecting

variable {c d e : Conn}

/-- At most one frame is added, and no eviction of the route it is queued on. -/
structure Supplies (c d : Conn) : Prop where
  connId : d.connId = c.connId
  evictions : c.pendingCacheEvictions <+: d.pendingCacheEvictions
  frames : (d.pendingRelay = c.pendingRelay ∧ d.abandonedRelayRoutes = c.abandonedRelayRoutes) ∨
    ∃ f : RelayFrame, f.publisherConnId = c.connId ∧ d.pendingRelay = c.pendingRelay ++ [f] ∧
      d.abandonedRelayRoutes = c.abandonedRelayRoutes.filter (fun k => k ≠ f.route) ∧
      (f.route ∈ d.pendingCacheEvictions → f.route ∈ c.pendingCacheEvictions)

theorem Supplies.refl (c : Conn) : Supplies c c := ⟨rfl, List.prefix_refl _, .inl ⟨rfl, rfl⟩⟩

theorem claim_conn (stream : String) (s : Session) :
    ∃ claimed more, (s.claimPublishRoute stream).2.conn = { s.conn with
      claimedPublishRoute := claimed
      pendingCacheEvictions := s.conn.pendingCacheEvictions ++ more } ∧
      (s.conn.app, stream) ∉ more := by
  have hsame : ∀ claimed, ∃ claimed' more, { s.conn with claimedPublishRoute := claimed } =
      { s.conn with
        claimedPublishRoute := claimed'
        pendingCacheEvictions := s.conn.pendingCacheEvictions ++ more } ∧
      (s.conn.app, stream) ∉ more :=
    fun claimed => ⟨claimed, [], by simp, List.not_mem_nil⟩
  unfold Session.claimPublishRoute
  dsimp only
  split
  · split
    · exact hsame s.conn.claimedPublishRoute
    · split
      · exact hsame (some stream)
      · split
        · exact hsame s.conn.claimedPublishRoute
        · rename_i prev _ hne
          split
          · rename_i d hd
            split at hd
            · unfold Conn.pushPendingCacheEviction at hd
              split at hd
              · cases hd
              · cases hd
                exact ⟨some stream, _, rfl, by simpa using Ne.symm hne⟩
            · cases hd
              exact hsame (some stream)
          · exact hsame s.conn.claimedPublishRoute
  · exact hsame (some stream)

theorem queue_conn (frameType : FrameType) (timestamp : UInt32) (payload : List UInt8)
    (cachePayload : Option (List UInt8)) (s : Session) :
    (queueRelayFrame frameType timestamp payload cachePayload).on s = (.error .internal, s) ∨
    (queueRelayFrame frameType timestamp payload cachePayload).on s = (.ok (), ⟨{ s.conn with
      abandonedRelayRoutes := s.conn.abandonedRelayRoutes.filter (fun k =>
        k ≠ (s.conn.relayFrame frameType timestamp payload cachePayload).route)
      pendingRelay := s.conn.pendingRelay ++
        [s.conn.relayFrame frameType timestamp payload cachePayload] }, s.routes⟩) := by
  unfold queueRelayFrame
  rw [Action.on_bind, Action.on_get]
  dsimp only
  split
  · exact .inl rfl
  · split
    · exact .inl rfl
    · exact .inr rfl

theorem undo_inject_conn (previous : Option String) (s : Session)
    (evictions more : List RouteKey) (h : s.conn.pendingCacheEvictions = evictions ++ more) :
    ∃ claimed relayKey, (s.undoInjectClaim previous evictions.length).conn = { s.conn with
      claimedPublishRoute := claimed, relayKey, pendingCacheEvictions := evictions } := by
  have hreleased : ∃ claimed, s.releaseClaimedPublishRoute.conn =
      { s.conn with claimedPublishRoute := claimed } := by
    unfold Session.releaseClaimedPublishRoute
    split
    · exact ⟨_, rfl⟩
    · exact ⟨_, rfl⟩
  obtain ⟨claimed, hclaimed⟩ := hreleased
  unfold Session.undoInjectClaim
  dsimp only
  rw [hclaimed]
  dsimp only
  rw [h, List.take_left]
  split
  · exact ⟨claimed, s.conn.relayKey, rfl⟩
  · exact ⟨_, _, rfl⟩

/-- The host's media goes the way of `Supplies`. -/
theorem inject_supplies (h : Host) (frameType : FrameType) (timestamp : UInt32)
    (payload : List UInt8) (s : Session) :
    Supplies s.conn ((injectRelayFrame h frameType timestamp payload).on s).2.conn := by
  unfold injectRelayFrame
  rw [Action.on_bind, Action.on_get]
  dsimp only
  split
  · exact .refl _
  split
  · exact .refl _
  split
  · exact .refl _
  split
  · exact .refl _
  rw [Action.on_bind, Action.on_modify_get]
  dsimp only
  obtain ⟨claimed, more, hclaim, hothers⟩ := claim_conn s.conn.relayRouteKey s
  generalize s.claimPublishRoute s.conn.relayRouteKey = r at hclaim
  obtain ⟨outcome, t⟩ := r
  dsimp only at hclaim ⊢
  have hkept : Supplies s.conn t.conn := by
    rw [hclaim]
    exact ⟨rfl, List.prefix_append _ _, .inl ⟨rfl, rfl⟩⟩
  cases outcome with
  | claimed =>
    dsimp only
    rw [Action.on_bind, Action.on_attempt]
    dsimp only
    rcases queue_conn frameType timestamp payload (h.media.normalize frameType payload) t with
      hqueue | hqueue
    · rw [hqueue]
      dsimp only
      split
      · obtain ⟨claimed', relayKey, hundo⟩ := undo_inject_conn s.conn.claimedPublishRoute t
          s.conn.pendingCacheEvictions more (by rw [hclaim])
        rw [Action.on_bind, Action.on_modify]
        dsimp only
        rw [Action.on_throw, hundo, hclaim]
        exact ⟨rfl, List.prefix_refl _, .inl ⟨rfl, rfl⟩⟩
      · exact hkept
    · rw [hqueue]
      refine ⟨hkept.connId, hkept.evictions, .inr ⟨t.conn.relayFrame frameType timestamp payload
        (h.media.normalize frameType payload), hkept.connId, ?_, ?_, ?_⟩⟩
      · rw [← show t.conn.pendingRelay = s.conn.pendingRelay by rw [hclaim]]
        rfl
      · rw [← show t.conn.abandonedRelayRoutes = s.conn.abandonedRelayRoutes by rw [hclaim]]
        rfl
      · intro hk
        change _ ∈ t.conn.pendingCacheEvictions at hk
        rw [hclaim] at hk ⊢
        exact (List.mem_append.mp hk).resolve_right hothers
  | contended => exact ⟨hkept.connId, hkept.evictions, hkept.frames⟩
  | evictionQueueFull => exact ⟨hkept.connId, hkept.evictions, hkept.frames⟩

end Injecting

section Turning

variable (codec : Codec) {s : Session}

/-- Accepted frames come last, and a bar is lifted only by a frame that is accepted. -/
structure Queued (act : ConnAct) (c d : Conn) : Prop where
  connId : d.connId = c.connId
  mine : ∀ f ∈ d.pendingRelay, f ∈ c.pendingRelay ∨ f.publisherConnId = c.connId
  order : ∃ before, before.Sublist c.pendingRelay ∧
    d.pendingRelay = before ++ d.pendingRelay.drop c.pendingRelay.length
  live : ∀ f ∈ d.pendingRelay.drop c.pendingRelay.length,
    f.publisherConnId = c.connId ∧ f.route ∉ d.abandonedRelayRoutes
  barred : ∀ k, Barred c k → Barred d k ∨
    ∃ f ∈ d.pendingRelay.drop c.pendingRelay.length, f.route = k
  kept : ¬ Republishes c act → d.pendingCacheEvictions = [] →
    d.abandonedRelayRoutes ⊆ c.abandonedRelayRoutes ∧
      ∃ frames, d.pendingRelay = c.pendingRelay ++ frames

theorem Adds.queued {act : ConnAct} {c d : Conn} {routes routes' : Routes}
    {frames : List RelayFrame}
    (h : Adds (Session.ledger ⟨c, routes⟩) (Session.ledger ⟨d, routes'⟩) frames) :
    Queued act c d := by
  obtain ⟨hid, hev, hrelay, hmine, habandoned⟩ := h
  change d.pendingCacheEvictions = c.pendingCacheEvictions at hev
  change d.pendingRelay = c.pendingRelay ++ frames at hrelay
  change ∀ k, k ∈ d.abandonedRelayRoutes ↔ k ∈ c.abandonedRelayRoutes ∧ _ at habandoned
  have hdrop : d.pendingRelay.drop c.pendingRelay.length = frames := by rw [hrelay, List.drop_left]
  refine ⟨hid, ?_, ⟨c.pendingRelay, .refl _, by rw [hdrop, hrelay]⟩, ?_, ?_, ?_⟩
  · intro f hf
    rw [hrelay] at hf
    exact (List.mem_append.mp hf).imp_right (hmine f)
  · intro f hf
    rw [hdrop] at hf
    exact ⟨hmine f hf, fun hk => ((habandoned _).mp hk).2 f hf rfl⟩
  · intro k hk
    rw [hdrop]
    by_cases hlive : ∃ f ∈ frames, f.route = k
    · exact .inr hlive
    · have hnone : ∀ f ∈ frames, f.route ≠ k := fun f hf he => hlive ⟨f, hf, he⟩
      left
      rcases hk with hk | hk | hk
      · exact .inl (hev ▸ hk)
      · exact .inr (.inl ((habandoned k).mpr ⟨hk, hnone⟩))
      · refine .inr (.inr fun f hf => ?_)
        rw [hrelay] at hf
        exact (List.mem_append.mp hf).elim (hk f) (hnone f)
  · exact fun _ _ => ⟨fun k hk => ((habandoned k).mp hk).1, frames, hrelay⟩

theorem Settles.queued {act : ConnAct} {c d : Conn} {routes routes' : Routes} {cause : Cause}
    (h : Settles cause (Session.ledger ⟨c, routes⟩) (Session.ledger ⟨d, routes'⟩))
    (hd : cause.discards → Republishes c act) : Queued act c d := by
  have hrelay : d.pendingRelay.Sublist c.pendingRelay := h.relay
  have hdrop : d.pendingRelay.drop c.pendingRelay.length = [] :=
    List.drop_eq_nil_of_le hrelay.length_le
  refine ⟨h.connId, fun f hf => .inl (hrelay.subset hf),
    ⟨d.pendingRelay, hrelay, by rw [hdrop, List.append_nil]⟩, by simp [hdrop],
    fun k hk => .inl (h.bars k hk), ?_⟩
  intro hkeeps hempty
  rcases h.kept with hdiscards | hevicts | ⟨hsame, _, hab⟩
  · exact absurd (hd hdiscards) hkeeps
  · exact absurd hempty hevicts
  · have hab : d.abandonedRelayRoutes = c.abandonedRelayRoutes := hab
    have hsame : d.pendingRelay = c.pendingRelay := hsame
    exact ⟨fun k hk => hab ▸ hk, [], by rw [hsame, List.append_nil]⟩

theorem Supplies.queued {act : ConnAct} {c d : Conn} (h : Supplies c d) : Queued act c d := by
  obtain ⟨hid, ⟨more, hev⟩, hframes⟩ := h
  have hadds : ∃ frames, d.pendingRelay = c.pendingRelay ++ frames ∧
      (∀ f ∈ frames, f.publisherConnId = c.connId) ∧
      ∀ k, k ∈ d.abandonedRelayRoutes ↔ k ∈ c.abandonedRelayRoutes ∧ ∀ f ∈ frames, f.route ≠ k := by
    rcases hframes with ⟨hrelay, hab⟩ | ⟨f, hf, hrelay, hab, _⟩
    · exact ⟨[], by simp [hrelay], by simp, by simp [hab]⟩
    · refine ⟨[f], hrelay, by simpa using hf, fun k => ?_⟩
      rw [hab, List.mem_filter, decide_eq_true_eq]
      exact and_congr_right' ⟨fun hne => by simpa using Ne.symm hne,
        fun hne he => hne f (by simp) he.symm⟩
  obtain ⟨frames, hrelay, hmine, habandoned⟩ := hadds
  -- The evictions of a route switch come on top of what media does.
  have hqueued : Queued act c { d with pendingCacheEvictions := c.pendingCacheEvictions } :=
    by
    have hadds : Adds (Session.ledger ⟨c, ∅⟩)
        (Session.ledger ⟨{ d with pendingCacheEvictions := c.pendingCacheEvictions }, ∅⟩) frames :=
      ⟨hid, rfl, hrelay, hmine, habandoned⟩
    exact hadds.queued
  refine ⟨hid, hqueued.mine, hqueued.order, hqueued.live, fun k hk => ?_, fun _ _ => ?_⟩
  · refine (hqueued.barred k hk).imp_left fun hb => ?_
    rcases hb with hb | hb
    · exact .inl (hev ▸ List.mem_append_left _ hb)
    · exact .inr hb
  · exact ⟨fun k hk => ((habandoned k).mp hk).1, frames, hrelay⟩

theorem perform_inject (host : Host) (frameType : FrameType) (timestamp : UInt32)
    (payload : List UInt8) :
    (s.perform codec (.inject host frameType timestamp payload)).2.1 =
      ((injectRelayFrame (host.reading codec) frameType timestamp payload).on s).2 := by
  unfold Session.perform ConnAct.action
  rw [Action.on_bind]
  generalize (injectRelayFrame (host.reading codec) frameType timestamp payload).on s = r
  obtain ⟨r, t⟩ := r
  cases r <;> rfl

theorem turn_queued (act : ConnAct) (hd : act ≠ .detach) (hs : Seated s.ledger) :
    Queued act s.conn (s.perform codec act).2.1.conn := by
  by_cases hi : IsInject act
  · cases act with
    | inject host frameType timestamp payload =>
      rw [perform_inject]
      exact (inject_supplies (host.reading codec) frameType timestamp payload s).queued
    | _ => exact hi.elim
  · rcases act_walks_apart act hd hi (backs_act act hs fun h => absurd h hi) with hsteps | hqueues
    · exact (steps_settle hi (Walks.passes hsteps).1).queued fun h => h
    · obtain ⟨frames, hadds⟩ := queues_add (Walks.passes hqueues).1
      exact hadds.queued

theorem detach_barred (c : Conn) {k : RouteKey} (h : Barred c k) :
    Barred c.detachLostPublishRoute k := by
  unfold Conn.detachLostPublishRoute
  split
  · exact h
  · rename_i claimed _
    refine (evict_both_evicts _ claimed c.relayRouteKey).1.barred k ?_
    rcases h with h | h | h
    · exact .inl h
    · exact .inr (.inl h)
    · exact .inr (.inr fun f hf => h f (List.mem_filter.mp hf).1)

end Turning

end LibRtmp.Proofs
