import Mathlib.Logic.Relation
import LibRtmp.Server.Cache

namespace LibRtmp.Proofs

open CacheTable
open Relation (ReflTransGen)

section Tracking

variable {t : CacheTable} {key k : RouteKey} {p : Nat}

def Tracks (t : CacheTable) (p : Nat) (key : RouteKey) : Prop :=
  ∃ keys, t.publisherCacheKeys.lookup p = some keys ∧ key ∈ keys

theorem tracked_iff : t.tracked key = true ↔ ∃ p, Tracks t p key := by
  unfold CacheTable.tracked Tracks
  rw [List.any_eq_true]
  constructor
  · rintro ⟨row, hrow, hkey⟩
    exact ⟨row.1, row.2, Maps.lookup_iff_mem.mpr hrow, List.contains_iff_mem.mp hkey⟩
  · rintro ⟨p, keys, hrow, hkey⟩
    exact ⟨⟨p, keys⟩, Maps.lookup_iff_mem.mp hrow, List.contains_iff_mem.mpr hkey⟩

theorem contains_iff : t.contains key = true ↔ ∃ cache, t.streamCache.lookup key = some cache :=
  Option.isSome_iff_exists

/-- Eviction takes the key out of every row, and drops rows left empty. -/
theorem evict_row (t : CacheTable) (k : RouteKey) (p : Nat) (keys : List RouteKey) :
    (t.evictStreamCacheKey k).publisherCacheKeys.lookup p = some keys ↔
      keys ≠ [] ∧ ∃ old, t.publisherCacheKeys.lookup p = some old ∧
        old.filter (fun k' => k' ≠ k) = keys := by
  unfold evictStreamCacheKey
  rw [Maps.lookup_retain, Maps.lookup_map_values, and_comm]
  simp

theorem evict_tracks : Tracks (t.evictStreamCacheKey k) p key ↔ key ≠ k ∧ Tracks t p key := by
  unfold Tracks
  constructor
  · rintro ⟨keys, hrow, hkey⟩
    obtain ⟨-, old, hold, rfl⟩ := (evict_row t k p keys).mp hrow
    obtain ⟨hmem, hne⟩ := List.mem_filter.mp hkey
    exact ⟨by simpa using hne, old, hold, hmem⟩
  · rintro ⟨hne, keys, hrow, hkey⟩
    have hmem : key ∈ keys.filter (fun k' => k' ≠ k) :=
      List.mem_filter.mpr ⟨hkey, by simpa using hne⟩
    exact ⟨_, (evict_row t k p _).mpr ⟨List.ne_nil_of_mem hmem, keys, hrow, rfl⟩, hmem⟩

theorem evict_lookup {cache : StreamCache} :
    (t.evictStreamCacheKey k).streamCache.lookup key = some cache ↔
      key ≠ k ∧ t.streamCache.lookup key = some cache :=
  Maps.lookup_erase ..

end Tracking

/-- The keys of the cache are those the rows have, and no row is empty or has a key twice. -/
structure Owned (t : CacheTable) : Prop where
  keys : ∀ key, t.contains key = true ↔ ∃ p, Tracks t p key
  rows : ∀ p keys, t.publisherCacheKeys.lookup p = some keys → keys ≠ [] ∧ keys.Nodup

theorem Owned.evict {t : CacheTable} (h : Owned t) (k : RouteKey) :
    Owned (t.evictStreamCacheKey k) := by
  constructor
  · intro key
    simp only [contains_iff, evict_lookup, evict_tracks, exists_and_left, ← h.keys]
  · intro p keys hrow
    obtain ⟨hne, old, hold, rfl⟩ := (evict_row t k p keys).mp hrow
    exact ⟨hne, (h.rows p old hold).2.filter _⟩

def Sheds (key : RouteKey) (t t' : CacheTable) : Prop :=
  ∃ k, k ≠ key ∧ (∃ p, Tracks t p k) ∧ t' = t.evictStreamCacheKey k

section Evictions

variable {cfg : CacheConfig} {t t' : CacheTable} {key : RouteKey}

theorem evictable_sheds {p q : Nat} {keys : List RouteKey} {k : RouteKey}
    (hrow : t.publisherCacheKeys.lookup p = some keys) (h : t.evictable q key keys = some k) :
    Sheds key t (t.evictStreamCacheKey k) := by
  have hmem := List.mem_of_find?_eq_some h
  have hne := List.find?_some h
  simp only [Bool.and_eq_true, decide_eq_true_eq] at hne
  exact ⟨k, hne.1, ⟨p, keys, hrow, hmem⟩, rfl⟩

theorem evict_publisher_sheds {p : Nat} (h : t.evictStreamCacheForPublisher p key = some t') :
    Sheds key t t' := by
  obtain ⟨keys, hrow, hmap⟩ := Option.bind_eq_some_iff.mp h
  obtain ⟨k, hk, rfl⟩ := Option.map_eq_some_iff.mp hmap
  exact evictable_sheds hrow hk

theorem evict_external_sheds (h : evictAnyExternalStreamCache cfg t key = some t') :
    Sheds key t t' := by
  obtain ⟨k, hk, rfl⟩ := Option.map_eq_some_iff.mp h
  obtain ⟨row, hrow, hsome⟩ := List.exists_of_findSome?_eq_some hk
  split at hsome
  · refine evictable_sheds (p := row.1) (Maps.lookup_iff_mem.mpr ?_) hsome
    exact (cfg.order_perm _).mem_iff.mp hrow
  · cases hsome

theorem evict_pressure_sheds {p : Nat} (h : evictForStreamCachePressure cfg t p key = some t') :
    Sheds key t t' := by
  unfold evictForStreamCachePressure at h
  cases hp : t.evictStreamCacheForPublisher p key with
  | some u =>
    rw [hp] at h
    cases h
    exact evict_publisher_sheds hp
  | none =>
    rw [hp] at h
    exact evict_external_sheds h

theorem make_room_spec (cfg : CacheConfig) (r : Reservation) (fuel : Nat) (t : CacheTable) :
    ReflTransGen (Sheds r.key) t (makeRoom cfg r fuel t).2 ∧
      ((makeRoom cfg r fuel t).1 = true →
        (makeRoom cfg r fuel t).2.projectedTotal r ≤ cfg.maxStreamCacheBytes) := by
  induction fuel generalizing t with
  | zero => exact ⟨.refl, of_decide_eq_true⟩
  | succ fuel ih =>
    unfold makeRoom
    split
    · split
      · rename_i u hu
        exact ⟨.head (evict_pressure_sheds hu) (ih u).1, (ih u).2⟩
      · exact ⟨.refl, nofun⟩
    · rename_i hfits
      exact ⟨.refl, fun _ => Nat.not_lt.mp hfits⟩

end Evictions

section Shedding

variable {t t' : CacheTable} {key : RouteKey}

theorem shed_lookup {k : RouteKey} {cache : StreamCache} (h : ReflTransGen (Sheds key) t t')
    (hk : t'.streamCache.lookup k = some cache) : t.streamCache.lookup k = some cache := by
  induction h with
  | refl => exact hk
  | tail _ hs ih =>
    obtain ⟨k', -, -, rfl⟩ := hs
    exact ih (evict_lookup.mp hk).2

/-- Evictions for a route leave that route alone. -/
theorem shed_keeps (h : ReflTransGen (Sheds key) t t') :
    t'.streamCache.lookup key = t.streamCache.lookup key := by
  induction h with
  | refl => rfl
  | tail _ hs ih =>
    obtain ⟨k, hk, -, rfl⟩ := hs
    rw [← ih]
    exact AList.lookup_erase_ne (Ne.symm hk)

theorem shed_owned (h : ReflTransGen (Sheds key) t t') (ho : Owned t) : Owned t' := by
  induction h with
  | refl => exact ho
  | tail _ hs ih =>
    obtain ⟨k, -, -, rfl⟩ := hs
    exact ih.evict k

theorem shed_total (w : RouteKey → StreamCache → Nat) (h : ReflTransGen (Sheds key) t t') :
    Maps.total w t'.streamCache ≤ Maps.total w t.streamCache := by
  induction h with
  | refl => exact Nat.le_refl _
  | tail _ hs ih =>
    obtain ⟨k, -, -, rfl⟩ := hs
    exact Nat.le_trans (Maps.total_erase_le w _ k) ih

/-- Each eviction makes room for an entry. -/
theorem Sheds.fewer (h : Sheds key t t') (ho : Owned t) :
    t'.streamCache.entries.length < t.streamCache.entries.length := by
  obtain ⟨k, -, htracked, rfl⟩ := h
  obtain ⟨cache, hcache⟩ := contains_iff.mp ((ho.keys k).mpr htracked)
  rw [Maps.length_eq_total, Maps.length_eq_total, ← Maps.total_erase _ hcache]
  exact Nat.lt_succ_self _

end Shedding

section Reserving

variable (cfg : CacheConfig) (t : CacheTable) (r : Reservation)

/-- A reservation evicts other routes only, and if it is granted there is room. -/
structure Reserved (result : Bool × CacheTable) : Prop where
  sheds : ReflTransGen (Sheds r.key) t result.2
  bytes : result.1 = true → result.2.projectedTotal r ≤ cfg.maxStreamCacheBytes
  entries : result.1 = true → Owned t → t.streamCache.entries.length ≤ maxStreamCacheEntries →
    t.contains r.key = false → result.2.streamCache.entries.length < maxStreamCacheEntries

theorem reserved_refused {u : CacheTable} (h : ReflTransGen (Sheds r.key) t u) :
    Reserved cfg t r (false, u) :=
  ⟨h, nofun, nofun⟩

/-- What a reservation comes to. -/
theorem reserve_spec : Reserved cfg t r (reserveStreamCacheStorage cfg t r) := by
  unfold reserveStreamCacheStorage
  dsimp only
  split
  · exact reserved_refused cfg t r .refl
  split
  · exact reserved_refused cfg t r .refl
  generalize hcap : (if (!t.contains r.key) = true ∧
      t.publisherCacheKeyCount r.publisherConnId ≥ maxStreamCacheKeysPerPublisher then
    t.evictStreamCacheForPublisher r.publisherConnId r.key else some t) = capped
  cases capped with
  | none => exact reserved_refused cfg t r .refl
  | some u =>
    have hu : ReflTransGen (Sheds r.key) t u := by
      split at hcap
      · exact .single (evict_publisher_sheds hcap)
      · cases hcap
        exact .refl
    dsimp only
    generalize hbound : (if u.streamCache.entries.length ≥ maxStreamCacheEntries ∧
        (!t.contains r.key) = true then
      evictForStreamCachePressure cfg u r.publisherConnId r.key else some u) = bounded
    cases bounded with
    | none => exact reserved_refused cfg t r hu
    | some v =>
      have hv : ReflTransGen (Sheds r.key) u v := by
        split at hbound
        · exact .single (evict_pressure_sheds hbound)
        · cases hbound
          exact .refl
      obtain ⟨hsheds, hfits⟩ := make_room_spec cfg r v.trackedKeys v
      refine ⟨(hu.trans hv).trans hsheds, hfits, fun _ ho hlen hnew => ?_⟩
      have hmax : u.streamCache.entries.length ≤ maxStreamCacheEntries := by
        rw [Maps.length_eq_total] at hlen ⊢
        exact Nat.le_trans (shed_total _ hu) hlen
      have hroom : v.streamCache.entries.length < maxStreamCacheEntries := by
        split at hbound
        · exact Nat.lt_of_lt_of_le ((evict_pressure_sheds hbound).fewer (shed_owned hu ho)) hmax
        · rename_i hfree
          cases hbound
          simp only [hnew, Bool.not_false, and_true] at hfree
          exact Nat.not_le.mp hfree
      rw [Maps.length_eq_total] at hroom ⊢
      exact Nat.lt_of_le_of_lt (shed_total _ hsheds) hroom

end Reserving

def frameReservation (t : CacheTable) (frame : RelayFrame) (replaced : StreamCache → Nat) :
    Reservation :=
  ⟨frame.route, frame.payload.length, ((t.streamCache.lookup frame.route).map replaced).getD 0,
    frame.publisherConnId⟩

theorem store_frame_eq (cfg : CacheConfig) (t : CacheTable) (frame : RelayFrame)
    (replaced : StreamCache → Nat) (f : StreamCache → StreamCache) :
    storeFrame cfg t frame replaced f =
      match reserveStreamCacheStorage cfg t (frameReservation t frame replaced) with
      | (false, u) => u
      | (true, u) =>
        (u.trackPublisherCacheKey frame.publisherConnId frame.route).updateEntry frame.route f :=
  rfl

end LibRtmp.Proofs
