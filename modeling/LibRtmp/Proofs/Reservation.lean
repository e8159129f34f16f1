import Mathlib.Algebra.Order.BigOperators.Group.List
import Mathlib.Algebra.Order.Ring.Nat
import LibRtmp.Media.InitCache
import LibRtmp.Proofs.CacheBounds

namespace LibRtmp.Proofs

open CacheTable
open Relation (ReflTransGen)

structure OnlyBy (t : CacheTable) (p : Nat) (k : RouteKey) : Prop where
  tracks : Tracks t p k
  alone : ∀ q, Tracks t q k → q = p

/-- What a publisher may evict: what it tracks alone, and what one injected route tracks alone. -/
def Evictable (t : CacheTable) (p : Nat) (k : RouteKey) : Prop :=
  ∃ q, (q = p ∨ isExternalPublisherId q = true) ∧ OnlyBy t q k

section Evicting

variable {cfg : CacheConfig} {t t' : CacheTable} {p : Nat} {key k : RouteKey}

theorem co_tracked_iff : t.cacheKeyCoTracked p k = true ↔ ∃ q, q ≠ p ∧ Tracks t q k := by
  unfold cacheKeyCoTracked Tracks
  rw [List.any_eq_true]
  constructor
  · rintro ⟨row, hrow, hk⟩
    rw [Bool.and_eq_true, decide_eq_true_eq] at hk
    exact ⟨row.1, hk.1, row.2, Maps.lookup_iff_mem.mpr hrow, List.contains_iff_mem.mp hk.2⟩
  · rintro ⟨q, hne, keys, hrow, hk⟩
    refine ⟨⟨q, keys⟩, Maps.lookup_iff_mem.mp hrow, ?_⟩
    rw [Bool.and_eq_true, decide_eq_true_eq]
    exact ⟨hne, List.contains_iff_mem.mpr hk⟩

theorem only_by_iff : OnlyBy t p k ↔ Tracks t p k ∧ t.cacheKeyCoTracked p k = false := by
  rw [← Bool.not_eq_true, co_tracked_iff]
  constructor
  · exact fun h => ⟨h.tracks, fun ⟨q, hne, hq⟩ => hne (h.alone q hq)⟩
  · exact fun ⟨ht, hnone⟩ => ⟨ht, fun q hq => by_contra fun hne => hnone ⟨q, hne, hq⟩⟩

theorem evict_only_by {q : Nat} :
    OnlyBy (t.evictStreamCacheKey k) q key ↔ key ≠ k ∧ OnlyBy t q key := by
  constructor
  · intro h
    obtain ⟨hne, ht⟩ := evict_tracks.mp h.tracks
    exact ⟨hne, ht, fun r hr => h.alone r (evict_tracks.mpr ⟨hne, hr⟩)⟩
  · rintro ⟨hne, h⟩
    exact ⟨evict_tracks.mpr ⟨hne, h.tracks⟩, fun r hr => h.alone r (evict_tracks.mp hr).2⟩

/-- The first key of a row that its publisher tracks alone. -/
theorem evictable_some {keys : List RouteKey} (hrow : t.publisherCacheKeys.lookup p = some keys)
    (h : t.evictable p key keys = some k) : k ≠ key ∧ OnlyBy t p k := by
  have hk := List.find?_some h
  rw [Bool.and_eq_true, decide_eq_true_eq, Bool.not_eq_true'] at hk
  exact ⟨hk.1, only_by_iff.mpr ⟨⟨keys, hrow, List.mem_of_find?_eq_some h⟩, hk.2⟩⟩

theorem evictable_none {keys : List RouteKey} (hrow : t.publisherCacheKeys.lookup p = some keys)
    (h : t.evictable p key keys = none) (hk : OnlyBy t p k) : k = key := by
  obtain ⟨⟨keys', hrow', hmem⟩, hco⟩ := only_by_iff.mp hk
  rw [hrow] at hrow'
  cases hrow'
  have hno := List.find?_eq_none.mp h k hmem
  simpa [hco] using hno

theorem evict_publisher_some (h : t.evictStreamCacheForPublisher p key = some t') :
    ∃ k, k ≠ key ∧ OnlyBy t p k ∧ t' = t.evictStreamCacheKey k := by
  obtain ⟨keys, hrow, hmap⟩ := Option.bind_eq_some_iff.mp h
  obtain ⟨k, hk, rfl⟩ := Option.map_eq_some_iff.mp hmap
  obtain ⟨hne, honly⟩ := evictable_some hrow hk
  exact ⟨k, hne, honly, rfl⟩

theorem evict_publisher_none (h : t.evictStreamCacheForPublisher p key = none)
    (hk : OnlyBy t p k) : k = key := by
  obtain ⟨keys, hrow, _⟩ := hk.tracks
  unfold evictStreamCacheForPublisher at h
  rw [hrow, Option.bind_some, Option.map_eq_none_iff] at h
  exact evictable_none hrow h hk

theorem evict_external_some (h : evictAnyExternalStreamCache cfg t key = some t') :
    ∃ q k, isExternalPublisherId q = true ∧ k ≠ key ∧ OnlyBy t q k ∧
      t' = t.evictStreamCacheKey k := by
  obtain ⟨k, hk, rfl⟩ := Option.map_eq_some_iff.mp h
  obtain ⟨row, hrow, hsome⟩ := List.exists_of_findSome?_eq_some hk
  split at hsome
  · rename_i hext
    have hmem := (cfg.order_perm _).mem_iff.mp hrow
    obtain ⟨hne, honly⟩ := evictable_some (Maps.lookup_iff_mem.mpr hmem) hsome
    exact ⟨row.1, k, hext, hne, honly, rfl⟩
  · cases hsome

theorem evict_external_none {q : Nat} (h : evictAnyExternalStreamCache cfg t key = none)
    (hq : isExternalPublisherId q = true) (hk : OnlyBy t q k) : k = key := by
  obtain ⟨keys, hrow, _⟩ := hk.tracks
  have hmem : (⟨q, keys⟩ : PublisherRow) ∈ cfg.order t.publisherCacheKeys.entries :=
    (cfg.order_perm _).mem_iff.mpr (Maps.lookup_iff_mem.mp hrow)
  have hnone := List.findSome?_eq_none_iff.mp (Option.map_eq_none_iff.mp h) _ hmem
  rw [if_pos hq] at hnone
  exact evictable_none hrow hnone hk

/-- A key of the publisher's own goes first. -/
theorem evict_pressure_some (h : evictForStreamCachePressure cfg t p key = some t') :
    ∃ k, k ≠ key ∧ Evictable t p k ∧ t' = t.evictStreamCacheKey k := by
  unfold evictForStreamCachePressure at h
  cases hp : t.evictStreamCacheForPublisher p key with
  | some u =>
    rw [hp] at h
    cases h
    obtain ⟨k, hne, honly, rfl⟩ := evict_publisher_some hp
    exact ⟨k, hne, ⟨p, .inl rfl, honly⟩, rfl⟩
  | none =>
    rw [hp] at h
    obtain ⟨q, k, hext, hne, honly, rfl⟩ := evict_external_some h
    exact ⟨k, hne, ⟨q, .inr hext, honly⟩, rfl⟩

theorem evict_pressure_none (h : evictForStreamCachePressure cfg t p key = none)
    (hk : Evictable t p k) : k = key := by
  unfold evictForStreamCachePressure at h
  cases hp : t.evictStreamCacheForPublisher p key with
  | some u =>
    rw [hp] at h
    cases h
  | none =>
    rw [hp] at h
    obtain ⟨q, hq, honly⟩ := hk
    rcases hq with rfl | hext
    · exact evict_publisher_none hp honly
    · exact evict_external_none h hext honly

end Evicting

section Weights

variable {t : CacheTable} {p : Nat} {key k : RouteKey}

open Classical in
/-- Bytes of the entries, other than one, that the publisher tracks alone. -/
noncomputable def ownBytes (t : CacheTable) (key : RouteKey) (p : Nat) : Nat :=
  Maps.total (fun k c => if k ≠ key ∧ OnlyBy t p k then streamCacheEntryBytes k c else 0)
    t.streamCache

theorem sum_filter_map {α : Type} (q : α → Bool) (f : α → Nat) (l : List α) :
    ((l.filter q).map f).sum = (l.map (fun a => if q a then f a else 0)).sum := by
  induction l with
  | nil => rfl
  | cons a l ih =>
    rw [List.filter_cons]
    split <;> rename_i hq <;> simp [hq, ih]

/-- The estimate before evicting counts what the publisher tracks alone, and nothing else. -/
theorem freeable_eq_own : t.streamCacheFreeableBytes key p = ownBytes t key p := by
  classical
  unfold streamCacheFreeableBytes ownBytes Maps.total
  rw [sum_filter_map]
  congr 1
  refine List.map_congr_left fun e _ => ?_
  refine if_congr ?_ rfl rfl
  rw [only_by_iff]
  simp only [Bool.and_eq_true, decide_eq_true_eq, Bool.not_eq_true', and_assoc]
  refine and_congr_right fun _ => ⟨fun ⟨hco, htracked⟩ => ⟨?_, hco⟩, fun ⟨ht, hco⟩ => ⟨hco, ?_⟩⟩
  · obtain ⟨row, hrow, hk⟩ := List.any_eq_true.mp htracked
    rw [Bool.and_eq_true] at hk
    have hq : Tracks t row.1 e.1 :=
      ⟨row.2, Maps.lookup_iff_mem.mpr hrow, List.contains_iff_mem.mp hk.1⟩
    by_contra hp
    have hne : row.1 ≠ p := fun heq => hp (heq ▸ hq)
    rw [co_tracked_iff.mpr ⟨row.1, hne, hq⟩] at hco
    cases hco
  · obtain ⟨keys, hrow, hk⟩ := ht
    refine List.any_eq_true.mpr ⟨⟨p, keys⟩, Maps.lookup_iff_mem.mp hrow, ?_⟩
    simpa using hk

/-- What an eviction takes from the total it takes from the publisher's own bytes at most. -/
theorem evict_own_bytes :
    (t.evictStreamCacheKey k).bytes + ownBytes t key p ≤
      t.bytes + ownBytes (t.evictStreamCacheKey k) key p := by
  classical
  have hown : ownBytes (t.evictStreamCacheKey k) key p =
      Maps.total (fun j c => if j ≠ key ∧ OnlyBy t p j then streamCacheEntryBytes j c else 0)
        (t.streamCache.erase k) := by
    unfold ownBytes Maps.total
    congr 1
    refine List.map_congr_left fun e he => ?_
    have hne : e.1 ≠ k := by
      have hlookup : (t.streamCache.erase k).lookup e.1 = some e.2 := Maps.lookup_iff_mem.mpr he
      exact ((Maps.lookup_erase ..).mp hlookup).1
    refine if_congr ?_ rfl rfl
    rw [evict_only_by]
    simp [hne]
  rw [hown]
  change Maps.total streamCacheEntryBytes (t.streamCache.erase k) + _ ≤
    Maps.total streamCacheEntryBytes t.streamCache + _
  unfold ownBytes
  cases hc : t.streamCache.lookup k with
  | none => rw [Maps.erase_of_none hc]
  | some c =>
    rw [← Maps.total_erase streamCacheEntryBytes hc, ← Maps.total_erase _ hc]
    split <;> omega

/-- Each eviction leaves fewer tracked keys. -/
theorem evict_tracked_keys (h : Tracks t p k) :
    (t.evictStreamCacheKey k).trackedKeys < t.trackedKeys := by
  obtain ⟨keys, hrow, hk⟩ := h
  have hless : (t.publisherCacheKeys.entries.map
      (fun row => (row.2.filter (fun k' => k' ≠ k)).length)).sum < t.trackedKeys := by
    refine List.sum_lt_sum _ _ (fun row _ => List.length_filter_le _ _) ?_
    refine ⟨⟨p, keys⟩, Maps.lookup_iff_mem.mp hrow, ?_⟩
    exact List.length_filter_lt_length_iff_exists.mpr ⟨k, hk, by simp⟩
  refine Nat.lt_of_le_of_lt ?_ hless
  unfold trackedKeys evictStreamCacheKey Maps.retain Maps.mapValues
  dsimp only
  refine Nat.le_trans (List.Sublist.sum_le_sum (List.filter_sublist.map _) (by simp)) ?_
  rw [List.map_map]
  exact Nat.le_refl _

end Weights

section Room

variable {cfg : CacheConfig} {t : CacheTable} {r : Reservation}

def Replaces (t : CacheTable) (r : Reservation) : Prop :=
  r.existingFieldLen ≤ ((t.streamCache.lookup r.key).map (streamCacheEntryBytes r.key)).getD 0

theorem Replaces.le_bytes (h : Replaces t r) : r.existingFieldLen ≤ t.bytes := by
  unfold Replaces at h
  cases hc : t.streamCache.lookup r.key with
  | none =>
    rw [hc] at h
    exact Nat.le_trans h (Nat.zero_le _)
  | some c =>
    rw [hc, Option.map_some, Option.getD_some] at h
    have htotal := Maps.total_erase streamCacheEntryBytes hc
    change _ = t.bytes at htotal
    omega

structure Fits (cfg : CacheConfig) (r : Reservation) (t : CacheTable) : Prop where
  replaces : Replaces t r
  enough : t.projectedTotal r ≤ cfg.maxStreamCacheBytes + ownBytes t r.key r.publisherConnId

theorem Fits.evict (h : Fits cfg r t) {k : RouteKey} (hk : k ≠ r.key) :
    Fits cfg r (t.evictStreamCacheKey k) := by
  have hsame : (t.evictStreamCacheKey k).streamCache.lookup r.key =
      t.streamCache.lookup r.key := AList.lookup_erase_ne hk.symm
  have hreplaces : Replaces (t.evictStreamCacheKey k) r := by
    unfold Replaces
    rw [hsame]
    exact h.replaces
  refine ⟨hreplaces, ?_⟩
  have henough := h.enough
  have hweights : (t.evictStreamCacheKey k).bytes + ownBytes t r.key r.publisherConnId ≤
      t.bytes + ownBytes (t.evictStreamCacheKey k) r.key r.publisherConnId := evict_own_bytes
  have hbefore := h.replaces.le_bytes
  have hafter := hreplaces.le_bytes
  unfold projectedTotal CacheTable.contains at henough ⊢
  rw [hsame]
  omega

theorem own_bytes_zero {key : RouteKey} {p : Nat} (h : ∀ k, OnlyBy t p k → k = key) :
    ownBytes t key p = 0 := by
  unfold ownBytes Maps.total
  rw [List.sum_eq_zero_iff]
  intro n hn
  obtain ⟨e, _, rfl⟩ := List.mem_map.mp hn
  exact if_neg fun ⟨hne, honly⟩ => hne (h e.1 honly)

/-- If the publisher's own entries suffice, room is made. -/
theorem Fits.make_room (h : Fits cfg r t) {fuel : Nat} (hfuel : t.trackedKeys ≤ fuel) :
    (makeRoom cfg r fuel t).1 = true := by
  induction fuel generalizing t with
  | zero =>
    have hnone : ∀ k, OnlyBy t r.publisherConnId k → k = r.key := by
      intro k hk
      exact absurd (evict_tracked_keys hk.tracks) (by omega)
    have henough := h.enough
    rw [own_bytes_zero hnone] at henough
    exact decide_eq_true henough
  | succ fuel ih =>
    unfold makeRoom
    split
    · rename_i hover
      split
      · rename_i u hu
        obtain ⟨k, hne, ⟨q, _, honly⟩, rfl⟩ := evict_pressure_some hu
        have hless := evict_tracked_keys honly.tracks
        exact ih (h.evict hne) (by omega)
      · rename_i hu
        have henough := h.enough
        rw [own_bytes_zero fun k hk => evict_pressure_none hu ⟨_, .inl rfl, hk⟩] at henough
        omega
    · rfl

def Trims (r : Reservation) (t t' : CacheTable) : Prop :=
  ∃ k, k ≠ r.key ∧ Evictable t r.publisherConnId k ∧ t' = t.evictStreamCacheKey k

theorem Fits.trim {u : CacheTable} (h : Fits cfg r t) (ht : Trims r t u) : Fits cfg r u := by
  obtain ⟨k, hne, _, rfl⟩ := ht
  exact h.evict hne

theorem make_room_trims (cfg : CacheConfig) (r : Reservation) (fuel : Nat) (t : CacheTable) :
    ReflTransGen (Trims r) t (makeRoom cfg r fuel t).2 := by
  induction fuel generalizing t with
  | zero => exact .refl
  | succ fuel ih =>
    unfold makeRoom
    split
    · split
      · rename_i u hu
        exact .head (evict_pressure_some hu) (ih u)
      · exact .refl
    · exact .refl

/-- Evictions for a reservation leave its own entry, and take out only what may be evicted. -/
theorem trims_lookup {u : CacheTable} (h : ReflTransGen (Trims r) t u) (k : RouteKey) :
    u.streamCache.lookup k = t.streamCache.lookup k ∨
      k ≠ r.key ∧ u.streamCache.lookup k = none ∧ Evictable t r.publisherConnId k := by
  have hback : ∀ {v : CacheTable}, ReflTransGen (Trims r) t v →
      ∀ {q : Nat} {j : RouteKey}, OnlyBy v q j → OnlyBy t q j := by
    intro v hv
    induction hv with
    | refl => exact id
    | tail _ hs ih =>
      obtain ⟨_, _, _, rfl⟩ := hs
      exact fun hj => ih (evict_only_by.mp hj).2
  induction h with
  | refl => exact .inl rfl
  | @tail v _ hpath hs ih =>
    obtain ⟨j, hne, ⟨q, hq, honly⟩, rfl⟩ := hs
    by_cases hk : k = j
    · subst hk
      exact .inr ⟨hne, AList.lookup_erase _ _, q, hq, hback hpath honly⟩
    · have hsame : (v.evictStreamCacheKey j).streamCache.lookup k = v.streamCache.lookup k :=
        AList.lookup_erase_ne hk
      rw [hsame]
      exact ih

def AtLimit (cfg : CacheConfig) (t : CacheTable) (r : Reservation) : Prop :=
  t.publisherCacheKeyCount r.publisherConnId ≥ maxStreamCacheKeysPerPublisher ∧
      t.evictStreamCacheForPublisher r.publisherConnId r.key = none ∨
    t.streamCache.entries.length ≥ maxStreamCacheEntries ∧
      evictForStreamCachePressure cfg t r.publisherConnId r.key = none

def Refusal (cfg : CacheConfig) (t : CacheTable) (r : Reservation) : Prop :=
  t.irreducible r > cfg.maxStreamCacheBytes ∨ AtLimit cfg t r ∨
    t.projectedTotal r - t.streamCacheFreeableBytes r.key r.publisherConnId >
      cfg.maxStreamCacheBytes

theorem evict_fewer (hkeys : ∀ k, t.contains k = true ↔ ∃ p, Tracks t p k) {p : Nat} {k : RouteKey}
    (h : OnlyBy t p k) :
    (t.evictStreamCacheKey k).streamCache.entries.length < t.streamCache.entries.length := by
  obtain ⟨cache, hcache⟩ := contains_iff.mp ((hkeys k).mpr ⟨p, h.tracks⟩)
  rw [Maps.length_eq_total, Maps.length_eq_total, ← Maps.total_erase _ hcache]
  exact Nat.lt_succ_self _

/-- A reservation is refused before anything is evicted, or room is made for it. -/
theorem reserve_cases (hlen : t.streamCache.entries.length ≤ maxStreamCacheEntries)
    (hkeys : ∀ k, t.contains k = true ↔ ∃ p, Tracks t p k) (hrep : Replaces t r) :
    (reserveStreamCacheStorage cfg t r = (false, t) ∧ Refusal cfg t r) ∨
      ∃ u, ReflTransGen (Trims r) t u ∧ Fits cfg r u ∧
        reserveStreamCacheStorage cfg t r = makeRoom cfg r u.trackedKeys u := by
  unfold reserveStreamCacheStorage
  dsimp only
  split
  · rename_i hbig
    exact .inl ⟨rfl, .inl hbig⟩
  split
  · rename_i hover
    exact .inl ⟨rfl, .inr (.inr hover.2)⟩
  rename_i hfits
  have hstart : Fits cfg r t := by
    refine ⟨hrep, ?_⟩
    rw [← freeable_eq_own]
    by_contra hmore
    exact hfits (by omega)
  by_cases hcap : (!t.contains r.key) = true ∧
      t.publisherCacheKeyCount r.publisherConnId ≥ maxStreamCacheKeysPerPublisher
  · rw [if_pos hcap]
    cases hp : t.evictStreamCacheForPublisher r.publisherConnId r.key with
    | none => exact .inl ⟨rfl, .inr (.inl (.inl ⟨hcap.2, hp⟩))⟩
    | some u =>
      obtain ⟨k, hne, honly, rfl⟩ := evict_publisher_some hp
      have htrim : Trims r t (t.evictStreamCacheKey k) := ⟨k, hne, ⟨_, .inl rfl, honly⟩, rfl⟩
      -- One entry is gone, so the limit on entries is no longer reached.
      have hroom : ¬ ((t.evictStreamCacheKey k).streamCache.entries.length ≥
          maxStreamCacheEntries ∧ (!t.contains r.key) = true) := by
        have hfewer := evict_fewer hkeys honly
        omega
      dsimp only
      rw [if_neg hroom]
      exact .inr ⟨_, .single htrim, hstart.trim htrim, rfl⟩
  · rw [if_neg hcap]
    dsimp only
    by_cases hfull : t.streamCache.entries.length ≥ maxStreamCacheEntries ∧
        (!t.contains r.key) = true
    · rw [if_pos hfull]
      cases hp : evictForStreamCachePressure cfg t r.publisherConnId r.key with
      | none => exact .inl ⟨rfl, .inr (.inl (.inr ⟨hfull.1, hp⟩))⟩
      | some u =>
        have htrim : Trims r t u := evict_pressure_some hp
        exact .inr ⟨u, .single htrim, hstart.trim htrim, rfl⟩
    · rw [if_neg hfull]
      exact .inr ⟨t, .refl, hstart, rfl⟩

structure Granted (cfg : CacheConfig) (t : CacheTable) (r : Reservation) (u : CacheTable) :
    Prop where
  entry : u.streamCache.lookup r.key = t.streamCache.lookup r.key
  others : ∀ k, u.streamCache.lookup k = t.streamCache.lookup k ∨
    u.streamCache.lookup k = none ∧ Evictable t r.publisherConnId k
  bytes : u.projectedTotal r ≤ cfg.maxStreamCacheBytes

end Room

/-- A refused reservation changes nothing. A granted one leaves its own entry, removes only what
its publisher or one injected route tracks alone, and fits. -/
theorem reservation_all_or_nothing (cfg : CacheConfig) (t : CacheTable) (r : Reservation)
    (hlen : t.streamCache.entries.length ≤ maxStreamCacheEntries)
    (hkeys : ∀ k, t.contains k = true ↔ t.tracked k = true) (hrep : Replaces t r) :
    ((reserveStreamCacheStorage cfg t r).1 = false → (reserveStreamCacheStorage cfg t r).2 = t) ∧
      ((reserveStreamCacheStorage cfg t r).1 = true →
        Granted cfg t r (reserveStreamCacheStorage cfg t r).2) := by
  have hkeys : ∀ k, t.contains k = true ↔ ∃ p, Tracks t p k :=
    fun k => (hkeys k).trans tracked_iff
  have hspec := reserve_spec cfg t r
  rcases reserve_cases hlen hkeys hrep with ⟨hrefused, _⟩ | ⟨u, htrims, hfits, hroom⟩
  · rw [hrefused]
    exact ⟨fun _ => rfl, nofun⟩
  · have hgranted := hfits.make_room (Nat.le_refl _)
    have htrims : ReflTransGen (Trims r) t (reserveStreamCacheStorage cfg t r).2 := by
      rw [hroom]
      exact htrims.trans (make_room_trims cfg r _ u)
    rw [← hroom] at hgranted
    refine ⟨fun hfalse => ?_, fun _ => ⟨?_, fun k => ?_, hspec.bytes hgranted⟩⟩
    · rw [hgranted] at hfalse
      cases hfalse
    · exact (trims_lookup htrims r.key).resolve_right fun h => h.1 rfl
    · exact (trims_lookup htrims k).imp_right And.right

def smallConfig : CacheConfig := { mediaConfig with maxStreamCacheBytes := 16 }

def metadataOf (p : Nat) : CacheTable where
  streamCache := AList.singleton ("live", "cam") { metadata := some [1, 2, 3, 4] }
  publisherCacheKeys := AList.singleton p [("live", "cam")]

def sixBytes : Reservation := ⟨("live", "new"), 6, 0, 1⟩

theorem metadata_tracked (p : Nat) (k : RouteKey) :
    (metadataOf p).contains k = true ↔ (metadataOf p).tracked k = true := by
  by_cases hk : k = ("live", "cam")
  · subst hk
    simp [metadataOf, CacheTable.contains, CacheTable.tracked, AList.lookup]
  · simp [metadataOf, CacheTable.contains, CacheTable.tracked, AList.lookup, hk]

/-- The publisher's old route makes room for its new one. -/
theorem own_route_makes_room :
    (reserveStreamCacheStorage smallConfig (metadataOf 1) sixBytes).1 = true ∧
      Granted smallConfig (metadataOf 1) sixBytes
        (reserveStreamCacheStorage smallConfig (metadataOf 1) sixBytes).2 := by
  have hgranted : (reserveStreamCacheStorage smallConfig (metadataOf 1) sixBytes).1 = true := by
    decide +kernel
  exact ⟨hgranted, (reservation_all_or_nothing smallConfig (metadataOf 1) sixBytes (by decide)
    (metadata_tracked 1) (Nat.zero_le _)).2 hgranted⟩

def evictableBytes (t : CacheTable) (key : RouteKey) (p : Nat) : Nat :=
  ((t.streamCache.entries.filter (fun e =>
    e.1 ≠ key && t.publisherCacheKeys.entries.any (fun row => row.2.contains e.1 &&
      !t.cacheKeyCoTracked row.1 e.1 && (row.1 == p || isExternalPublisherId row.1)))).map
    (fun e => streamCacheEntryBytes e.1 e.2)).sum

def NoRoom (cfg : CacheConfig) (t : CacheTable) (r : Reservation) : Prop :=
  t.irreducible r > cfg.maxStreamCacheBytes ∨ AtLimit cfg t r ∨
    t.projectedTotal r - evictableBytes t r.key r.publisherConnId > cfg.maxStreamCacheBytes

/-- Refusals mean that there is no room exactly when the entries that the publisher tracks alone
suffice wherever all that may be evicted does: no entry of an injected route is counted. -/
theorem refusals_mean_no_room_iff (cfg : CacheConfig) (t : CacheTable) (r : Reservation)
    (hb : Bounded cfg t) (hrep : Replaces t r) :
    ((reserveStreamCacheStorage cfg t r).1 = false → NoRoom cfg t r) ↔
      (t.irreducible r ≤ cfg.maxStreamCacheBytes → ¬ AtLimit cfg t r →
        t.projectedTotal r ≤ cfg.maxStreamCacheBytes + evictableBytes t r.key r.publisherConnId →
        t.projectedTotal r ≤ cfg.maxStreamCacheBytes + ownBytes t r.key r.publisherConnId) := by
  rw [← freeable_eq_own]
  constructor
  · intro h hsmall hlimit hevictable
    by_contra hmore
    have hrefused : (reserveStreamCacheStorage cfg t r).1 = false := by
      unfold reserveStreamCacheStorage
      rw [if_neg (Nat.not_lt.mpr hsmall), if_pos (by omega)]
    rcases h hrefused with hbig | hat | hover
    · omega
    · exact hlimit hat
    · omega
  · intro h hrefused
    have hrefusal : Refusal cfg t r := by
      rcases reserve_cases hb.sized.entries hb.owned.keys hrep with ⟨_, hwhy⟩ | ⟨u, _, hfits, hroom⟩
      · exact hwhy
      · rw [hroom, hfits.make_room (Nat.le_refl _)] at hrefused
        cases hrefused
    rcases hrefusal with hbig | hat | hover
    · exact .inl hbig
    · exact .inr (.inl hat)
    · by_contra hroom
      simp only [NoRoom, not_or, Nat.not_lt] at hroom
      have hown := h hroom.1 hroom.2.1 (by omega)
      omega

theorem metadata_bounded (p : Nat) : Bounded smallConfig (metadataOf p) := by
  have hkey : ∀ k c, (metadataOf p).streamCache.lookup k = some c →
      c = { metadata := some [1, 2, 3, 4] } := by
    intro k c hc
    have hmem := Maps.lookup_iff_mem.mp hc
    cases List.mem_singleton.mp hmem
    rfl
  have hbytes : Maps.total streamCacheEntryBytes (metadataOf 0).streamCache ≤ 16 := by decide
  have hentries : (metadataOf 0).streamCache.entries.length ≤ maxStreamCacheEntries := by decide
  refine ⟨⟨hbytes, hentries, fun k c hc => ?_⟩, ?_, fun q keys hrow => ?_⟩
  · rw [hkey k c hc]
    exact ⟨⟨slots_fit_empty, slots_fit_empty, fun m hm => by cases hm; decide, nofun⟩, rfl⟩
  · exact fun k => (metadata_tracked p k).trans tracked_iff
  · cases List.mem_singleton.mp (Maps.lookup_iff_mem.mp hrow)
    simp

/-- The estimate is right for the publisher's own route. -/
theorem own_route_estimated :
    Bounded smallConfig (metadataOf 1) ∧
      ((reserveStreamCacheStorage smallConfig (metadataOf 1) sixBytes).1 = false →
        NoRoom smallConfig (metadataOf 1) sixBytes) :=
  ⟨metadata_bounded 1, (refusals_mean_no_room_iff smallConfig (metadataOf 1) sixBytes
    (metadata_bounded 1) (Nat.zero_le _)).mpr fun _ _ _ => by
      rw [← freeable_eq_own]
      decide +kernel⟩

def injectedId : Nat := externalPublisherIdBit + 1

/-- The entry of an injected route could make room, but the reservation is refused. -/
theorem injected_route_not_counted :
    Bounded smallConfig (metadataOf injectedId) ∧ Replaces (metadataOf injectedId) sixBytes ∧
      (reserveStreamCacheStorage smallConfig (metadataOf injectedId) sixBytes).1 = false ∧
      ¬ NoRoom smallConfig (metadataOf injectedId) sixBytes := by
  refine ⟨metadata_bounded injectedId, Nat.zero_le _, by decide +kernel, ?_⟩
  rintro (hbig | (hcap | hfull) | hover)
  · exact absurd hbig (by decide +kernel)
  · exact absurd hcap.1 (by decide +kernel)
  · exact absurd hfull.1 (by decide +kernel)
  · exact absurd hover (by decide +kernel)

end LibRtmp.Proofs
