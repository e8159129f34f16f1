import LibRtmp.Proofs.CacheBounds
import LibRtmp.Proofs.Superseded

namespace LibRtmp.Proofs

open CacheTable
open Relation (ReflTransGen)

section Rows

variable {cfg : CacheConfig} {t u v : CacheTable} {key k : RouteKey}

theorem row_of_evict (t : CacheTable) (k : RouteKey) (p : Nat) :
    rowOf (t.evictStreamCacheKey k) p = (rowOf t p).filter (fun j => j ≠ k) := by
  have hrow := evict_row t k p
  unfold rowOf
  cases hu : (t.evictStreamCacheKey k).publisherCacheKeys.lookup p with
  | some keys =>
    obtain ⟨_, old, hold, rfl⟩ := (hrow keys).mp hu
    rw [hold]
    rfl
  | none =>
    cases ht : t.publisherCacheKeys.lookup p with
    | none => rfl
    | some old =>
      -- A row that is left empty is dropped.
      by_contra hne
      have hkept := (hrow _).mpr ⟨fun h => hne h.symm, old, ht, rfl⟩
      rw [hu] at hkept
      cases hkept

def Shorter (t u : CacheTable) : Prop := ∀ p, (rowOf u p).length ≤ (rowOf t p).length

theorem Shorter.trans (h : Shorter t u) (h' : Shorter u v) : Shorter t v :=
  fun p => Nat.le_trans (h' p) (h p)

theorem shorter_evict (t : CacheTable) (k : RouteKey) : Shorter t (t.evictStreamCacheKey k) := by
  intro p
  rw [row_of_evict]
  exact List.length_filter_le _ _

theorem shorter_shed (h : ReflTransGen (Sheds key) t u) : Shorter t u := by
  induction h with
  | refl => exact fun _ => Nat.le_refl _
  | tail _ hs ih =>
    obtain ⟨k, -, -, rfl⟩ := hs
    exact ih.trans (shorter_evict _ k)

/-- Evictions for a route leave it in every row it is in. -/
theorem shed_still_tracked (h : ReflTransGen (Sheds key) t u) {p : Nat} (hk : key ∈ rowOf t p) :
    key ∈ rowOf u p := by
  induction h with
  | refl => exact hk
  | tail _ hs ih =>
    obtain ⟨k, hne, -, rfl⟩ := hs
    rw [row_of_evict]
    exact List.mem_filter.mpr ⟨ih, by simpa using hne.symm⟩

theorem shorter_rows (m : AList (fun _ : RouteKey => StreamCache)) (p : Nat)
    {rows : AList (fun _ : Nat => List RouteKey)} {keys : List RouteKey}
    (hrows : ∀ q, rowOf ⟨m, rows⟩ q = if q = p then keys else rowOf t q)
    (hkeys : keys.length ≤ (rowOf t p).length) : Shorter t ⟨m, rows⟩ := by
  intro q
  rw [hrows]
  split
  · rename_i hq
    rwa [hq]
  · exact Nat.le_refl _

theorem shorter_remove (h : Shorter t u) (key : RouteKey) : Shorter t (u.removeUntracked key) := by
  intro p
  unfold rowOf
  rw [remove_untracked_rows]
  exact h p

theorem shorter_release (t : CacheTable) (p : Nat) (key : RouteKey) :
    Shorter t (t.releaseKey p key) := by
  unfold releaseKey
  dsimp only
  split
  · apply shorter_remove
    split
    · exact shorter_rows _ p (row_of_erase t _ p) (Nat.zero_le _)
    · exact shorter_rows _ p (fun q => row_of_insert t _ p q _) (List.length_filter_le _ _)
  · exact fun _ => Nat.le_refl _

theorem shorter_forget (t : CacheTable) (p : Nat) : Shorter t (t.forgetPublisher p) := by
  unfold forgetPublisher
  split
  · exact fun _ => Nat.le_refl _
  · rename_i keys _
    intro q
    have herased := shorter_rows (t := t) _ p (row_of_erase t t.streamCache p) (Nat.zero_le _)
    unfold rowOf
    rw [remove_all_untracked_rows]
    exact herased q

end Rows

section Cap

variable {cfg : CacheConfig} {t u : CacheTable}

def WithinCap (t : CacheTable) : Prop :=
  ∀ p, (rowOf t p).length ≤ maxStreamCacheKeysPerPublisher

theorem WithinCap.shorter (h : WithinCap t) (hs : Shorter t u) : WithinCap u :=
  fun p => Nat.le_trans (hs p) (h p)

theorem within_cap_invariant : CacheInvariant WithinCap :=
  ⟨fun p => by simp [rowOf], fun h p key => h.shorter (shorter_release _ p key),
    fun h p => h.shorter (shorter_forget _ p)⟩

/-- There is a place left for the route, it is tracked already, or it is not in the cache. -/
def HasPlace (t : CacheTable) (frame : RelayFrame) : Prop :=
  (rowOf t frame.publisherConnId).length < maxStreamCacheKeysPerPublisher ∨
    frame.route ∈ rowOf t frame.publisherConnId ∨ t.contains frame.route = false

/-- A granted reservation has passed the check of the publisher's own row first. -/
theorem reserve_passes_row {r : Reservation} (h : reserveStreamCacheStorage cfg t r = (true, u)) :
    ∃ v, (if (!t.contains r.key) = true ∧
        t.publisherCacheKeyCount r.publisherConnId ≥ maxStreamCacheKeysPerPublisher then
      t.evictStreamCacheForPublisher r.publisherConnId r.key else some t) = some v ∧
      ReflTransGen (Sheds r.key) v u := by
  unfold reserveStreamCacheStorage at h
  dsimp only at h
  split at h
  · cases h
  split at h
  · cases h
  split at h
  · cases h
  · rename_i v hv
    refine ⟨v, hv, ?_⟩
    split at h
    · cases h
    · rename_i w hw
      have hshed : ReflTransGen (Sheds r.key) v w := by
        split at hw
        · exact .single (evict_pressure_sheds hw)
        · cases hw
          exact .refl
      have hroom := (make_room_spec cfg r w.trackedKeys w).1
      rw [h] at hroom
      exact hshed.trans hroom

theorem evict_publisher_row {p : Nat} {key : RouteKey}
    (h : t.evictStreamCacheForPublisher p key = some u) :
    (rowOf u p).length < (rowOf t p).length := by
  obtain ⟨keys, hrow, hmap⟩ := Option.bind_eq_some_iff.mp h
  obtain ⟨k, hk, rfl⟩ := Option.map_eq_some_iff.mp hmap
  have hmem : k ∈ rowOf t p := by
    unfold rowOf
    rw [hrow]
    exact List.mem_of_find?_eq_some hk
  rw [row_of_evict]
  apply List.length_filter_lt_length_iff_exists.mpr
  exact ⟨k, hmem, by simp⟩

/-- For a route that is not in the cache, a full row is made shorter. -/
theorem reserve_frees_place {r : Reservation} (h : reserveStreamCacheStorage cfg t r = (true, u))
    (hnew : t.contains r.key = false) (hcap : WithinCap t) :
    (rowOf u r.publisherConnId).length < maxStreamCacheKeysPerPublisher := by
  have hcount : t.publisherCacheKeyCount r.publisherConnId =
      (rowOf t r.publisherConnId).length := by
    unfold publisherCacheKeyCount rowOf
    cases t.publisherCacheKeys.lookup r.publisherConnId <;> rfl
  obtain ⟨v, hv, hshed⟩ := reserve_passes_row h
  apply Nat.lt_of_le_of_lt (shorter_shed hshed _)
  rw [hnew, hcount] at hv
  split at hv
  · exact Nat.lt_of_lt_of_le (evict_publisher_row hv) (hcap _)
  · rename_i hroom
    cases hv
    simpa using hroom

theorem track_row (t : CacheTable) (p q : Nat) (key : RouteKey) :
    rowOf (t.trackPublisherCacheKey p key) q =
      if q = p then (if key ∈ rowOf t p then rowOf t p else rowOf t p ++ [key]) else rowOf t q :=
  row_of_insert t _ p q _

theorem WithinCap.track (h : WithinCap t) {p : Nat} {key : RouteKey}
    (hplace : key ∈ rowOf t p ∨ (rowOf t p).length < maxStreamCacheKeysPerPublisher) :
    WithinCap (t.trackPublisherCacheKey p key) := by
  intro q
  rw [track_row]
  split
  · split
    · exact h p
    · rename_i hnew
      rw [List.length_append]
      exact hplace.resolve_left hnew
  · exact h q

theorem WithinCap.store (h : WithinCap t) {frame : RelayFrame} (replaced : StreamCache → Nat)
    (f : StreamCache → StreamCache)
    (hplace : (reserveStreamCacheStorage cfg t (frameReservation t frame replaced)).1 = true →
      HasPlace t frame) : WithinCap (storeFrame cfg t frame replaced f) := by
  have hr := reserve_spec cfg t (frameReservation t frame replaced)
  rw [store_frame_eq]
  cases hres : reserveStreamCacheStorage cfg t (frameReservation t frame replaced) with
  | mk granted u =>
    rw [hres] at hr hplace
    have hu : WithinCap u := h.shorter (shorter_shed hr.sheds)
    cases granted with
    | false => exact hu
    | true =>
      have htracked : WithinCap (u.trackPublisherCacheKey frame.publisherConnId frame.route) := by
        apply hu.track
        rcases hplace rfl with hroom | hmem | hnew
        · exact .inr (Nat.lt_of_le_of_lt (shorter_shed hr.sheds _) hroom)
        · exact .inl (shed_still_tracked hr.sheds hmem)
        · exact .inr (reserve_frees_place hres hnew h)
      exact htracked

theorem WithinCap.stale (h : WithinCap t) (key : RouteKey) (f : StreamCache → StreamCache) :
    WithinCap (t.dropStale key f) := by
  unfold dropStale
  split
  · exact h
  · rename_i cache _
    have hsame : WithinCap { t with streamCache := t.streamCache.insert key (f cache) } := h
    dsimp only
    split
    · exact hsame.shorter (shorter_evict _ key)
    · exact hsame

/-- The frame is of a kind that is kept, within the size for it, and is granted room. -/
def Stores (cfg : CacheConfig) (t : CacheTable) (frame : RelayFrame) : Prop :=
  ∃ kind, initKind cfg.codec frame = some kind ∧ frame.payload.length ≤ kind.cap ∧
    (reserveStreamCacheStorage cfg t
      (frameReservation t frame (replacedBy cfg.codec frame kind))).1 = true

theorem WithinCap.cache_frame (h : WithinCap t) {frame : RelayFrame}
    (hplace : Stores cfg t frame → HasPlace t frame) : WithinCap (cacheRelayFrame cfg t frame) := by
  rw [cache_frame_eq]
  cases hkind : initKind cfg.codec frame with
  | none => exact h
  | some kind =>
    dsimp only
    split
    · split
      · exact h
      · exact h.stale _ _
    · rename_i hsize
      exact h.store _ _ fun hgranted => hplace ⟨kind, hkind, Nat.le_of_not_lt hsize, hgranted⟩

end Cap

def FindsPlace (cfg : CacheConfig) (t : CacheTable) (op : CacheOp × Server) : Prop :=
  ∀ frame, op.1 = .cacheRelayFrame frame → Stores cfg t frame → HasPlace t frame

/-- While every frame that is stored finds a place for its route, no publisher tracks more routes
than it may. -/
theorem tracked_routes_capped (cfg : CacheConfig) (ops : List (CacheOp × Server))
    (h : Runs.Throughout (CacheOp.apply cfg) (FindsPlace cfg) {} ops) (p : Nat) :
    (rowOf (Runs.exec (CacheOp.apply cfg) {} ops) p).length ≤ maxStreamCacheKeysPerPublisher := by
  have hcap : WithinCap (Runs.exec (CacheOp.apply cfg) {} ops) := by
    refine Runs.exec_invariant_while ?_ within_cap_invariant.empty h
    intro t op ht hop
    exact within_cap_invariant.op ht op fun frame hframe => ht.cache_frame (hop frame hframe)
  exact hcap p

def metadataFrame (p i : Nat) : CacheOp × Server :=
  (.cacheRelayFrame
    { frameType := .metadata, timestamp := 0, payload := [1], cachePayload := none, app := "live"
      streamName := String.singleton (Char.ofNat (48 + i)), publisherConnId := p },
    { settings := {} })

/-- Two publishers share a route. -/
theorem shared_route_tracked :
    (rowOf (Runs.exec (CacheOp.apply mediaConfig) {} [metadataFrame 1 0, metadataFrame 2 0]) 2).length
      ≤ maxStreamCacheKeysPerPublisher := by
  apply tracked_routes_capped
  refine ⟨?_, ?_, trivial⟩
  · rintro frame ⟨⟩ -
    exact .inl (by decide +kernel)
  · rintro frame ⟨⟩ -
    exact .inl (by decide +kernel)

/-- One publisher fills its row, and another one sends on each of these routes. -/
def otherRoutes : List (CacheOp × Server) :=
  (List.range 64).map (metadataFrame 2) ++ metadataFrame 1 64 :: (List.range 64).map (metadataFrame 1)

/-- A route that is in the cache is tracked without a look at the publisher's row. -/
theorem other_routes_tracked :
    (rowOf (Runs.exec (CacheOp.apply mediaConfig) {} otherRoutes) 1).length = 65 := by
  decide +kernel

end LibRtmp.Proofs
