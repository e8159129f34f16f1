import LibRtmp.Lib.Runs
import LibRtmp.Proofs.CacheMoves
import LibRtmp.Proofs.Tenancy

namespace LibRtmp.Proofs

open CacheTable
open Relation (ReflTransGen)

structure SlotsFit (s : HeaderSlots) : Prop where
  header : ∀ h, s.header = some h → h.length ≤ maxCachedInitFrameBytes
  tracks : ∀ track h, s.trackHeaders.lookup track = some h → h.length ≤ maxCachedInitFrameBytes
  apart : s.header = none ∨ s.trackHeaders = ∅

structure EntryFits (c : StreamCache) : Prop where
  video : SlotsFit c.video
  audio : SlotsFit c.audio
  metadata : ∀ m, c.metadata = some m → m.length ≤ maxCachedInitFrameBytes
  keyframe : ∀ k, c.lastKeyframe = some k → k.2.length ≤ maxCachedKeyframeBytes

structure Sized (cfg : CacheConfig) (m : AList (fun _ : RouteKey => StreamCache)) : Prop where
  bytes : Maps.total streamCacheEntryBytes m ≤ cfg.maxStreamCacheBytes
  entries : m.entries.length ≤ maxStreamCacheEntries
  fits : ∀ key cache, m.lookup key = some cache → EntryFits cache ∧ cache.isEmpty = false

/-- The cache is within its limits, and its ownership records match it. -/
structure Bounded (cfg : CacheConfig) (t : CacheTable) : Prop where
  sized : Sized cfg t.streamCache
  owned : Owned t

section Slots

variable {s : HeaderSlots}

theorem slots_fit_empty : SlotsFit {} := ⟨nofun, fun _ _ h => by simp at h, .inl rfl⟩

theorem track_bytes_eq (s : HeaderSlots) :
    s.trackBytes = Maps.total (fun _ h => h.length) s.trackHeaders := rfl

theorem track_bytes_insert (s : HeaderSlots) (track : UInt8) (payload : List UInt8) :
    Maps.total (fun _ h => h.length) (s.trackHeaders.insert track payload) +
      ((s.trackHeaders.lookup track).map List.length).getD 0 = s.trackBytes + payload.length := by
  rw [track_bytes_eq, Maps.total_insert]
  cases h : s.trackHeaders.lookup track with
  | none =>
    rw [Maps.erase_of_none h]
    rfl
  | some old =>
    rw [← Maps.total_erase _ h, Option.map_some, Option.getD_some]
    omega

/-- Bytes after storing a header, with those it replaces. -/
theorem store_bytes (s : HeaderSlots) (payload tracks : List UInt8) :
    (s.store payload tracks).headerBytes + (s.store payload tracks).trackBytes +
      s.replacedBytes tracks = s.headerBytes + s.trackBytes + payload.length := by
  unfold HeaderSlots.store HeaderSlots.replacedBytes
  split
  · rename_i track
    have hinsert := track_bytes_insert s track payload
    rw [track_bytes_eq]
    simp only [HeaderSlots.headerBytes, Option.map_none, Option.getD_none]
    omega
  · rw [track_bytes_eq]
    change payload.length + 0 + _ = _
    omega

theorem SlotsFit.store (h : SlotsFit s) {payload : List UInt8}
    (hp : payload.length ≤ maxCachedInitFrameBytes) (tracks : List UInt8) :
    SlotsFit (s.store payload tracks) := by
  unfold HeaderSlots.store
  split
  · rename_i track
    refine ⟨nofun, fun k g hk => ?_, .inl rfl⟩
    rcases (Maps.lookup_insert ..).mp hk with ⟨-, rfl⟩ | ⟨-, hk⟩
    · exact hp
    · exact h.tracks k g hk
  · refine ⟨?_, fun _ _ hk => by simp at hk, .inr rfl⟩
    rintro g ⟨⟩
    exact hp

theorem drop_bytes (s : HeaderSlots) (tracks : List UInt8) :
    (s.drop tracks).headerBytes + (s.drop tracks).trackBytes ≤ s.headerBytes + s.trackBytes := by
  unfold HeaderSlots.drop
  split
  · have herase := Maps.total_erase_le (fun _ (h : List UInt8) => h.length) s.trackHeaders
    exact Nat.add_le_add (Nat.zero_le _) (herase _)
  · exact Nat.zero_le _

theorem SlotsFit.drop (h : SlotsFit s) (tracks : List UInt8) : SlotsFit (s.drop tracks) := by
  unfold HeaderSlots.drop
  split
  · exact ⟨nofun, fun k g hk => h.tracks k g ((Maps.lookup_erase ..).mp hk).2, .inl rfl⟩
  · exact slots_fit_empty

theorem store_nonempty (s : HeaderSlots) (payload tracks : List UInt8) :
    (s.store payload tracks).isEmpty = false := by
  unfold HeaderSlots.store
  split <;> rfl

end Slots

structure Updates (payload : List UInt8) (replaced : StreamCache → Nat)
    (f : StreamCache → StreamCache) : Prop where
  bytes : ∀ c, (f c).bytes + replaced c = c.bytes + payload.length
  fresh : replaced {} = 0
  fits : ∀ c, EntryFits c → EntryFits (f c)
  filled : ∀ c, (f c).isEmpty = false

section Entries

variable {payload : List UInt8}

theorem entry_fits_empty : EntryFits {} :=
  ⟨slots_fit_empty, slots_fit_empty, nofun, nofun⟩

theorem metadata_updates (hp : payload.length ≤ maxCachedInitFrameBytes) :
    Updates payload StreamCache.metadataBytes (fun c => { c with metadata := some payload }) := by
  refine ⟨fun c => ?_, rfl, fun c h => ⟨h.video, h.audio, ?_, h.keyframe⟩, fun c => by
    simp [StreamCache.isEmpty]⟩
  · simp only [StreamCache.bytes, StreamCache.metadataBytes, StreamCache.keyframeBytes,
      Option.map_some, Option.getD_some]
    omega
  · rintro m ⟨⟩
    exact hp

theorem keyframe_updates (timestamp : UInt32) (hp : payload.length ≤ maxCachedKeyframeBytes) :
    Updates payload StreamCache.keyframeBytes
      (fun c => { c with lastKeyframe := some (timestamp, payload) }) := by
  refine ⟨fun c => ?_, rfl, fun c h => ⟨h.video, h.audio, h.metadata, ?_⟩, fun c => by
    simp [StreamCache.isEmpty]⟩
  · simp only [StreamCache.bytes, StreamCache.metadataBytes, StreamCache.keyframeBytes,
      Option.map_some, Option.getD_some]
    omega
  · rintro k ⟨⟩
    exact hp

theorem audio_updates (tracks : List UInt8) (hp : payload.length ≤ maxCachedInitFrameBytes) :
    Updates payload (fun c => c.audio.replacedBytes tracks)
      (fun c => { c with audio := c.audio.store payload tracks }) := by
  refine ⟨fun c => ?_, ?_, fun c h => ⟨h.video, h.audio.store hp tracks, h.metadata, h.keyframe⟩,
    fun c => ?_⟩
  · have hstore := store_bytes c.audio payload tracks
    simp only [StreamCache.bytes, StreamCache.metadataBytes, StreamCache.keyframeBytes]
    omega
  · unfold HeaderSlots.replacedBytes
    split <;> rfl
  · simp [StreamCache.isEmpty, store_nonempty]

theorem video_updates (tracks : List UInt8) (hp : payload.length ≤ maxCachedInitFrameBytes) :
    Updates payload (StreamCache.replacedByVideoHeader payload tracks)
      (StreamCache.storeVideoHeader payload tracks) := by
  refine ⟨fun c => ?_, ?_, fun c h => ⟨h.video.store hp tracks, h.audio, h.metadata, ?_⟩,
    fun c => ?_⟩
  · have hstore := store_bytes c.video payload tracks
    simp only [StreamCache.bytes, StreamCache.metadataBytes, StreamCache.keyframeBytes,
      StreamCache.replacedByVideoHeader, StreamCache.storeVideoHeader]
    split
    · omega
    · simp only [Option.map_none, Option.getD_none]
      omega
  · unfold StreamCache.replacedByVideoHeader HeaderSlots.replacedBytes
    split <;> split <;> rfl
  · intro k hk
    unfold StreamCache.storeVideoHeader at hk
    dsimp only at hk
    split at hk
    · exact h.keyframe k hk
    · cases hk
  · simp [StreamCache.isEmpty, StreamCache.storeVideoHeader, store_nonempty]

end Entries

section Sizes

variable {cfg : CacheConfig} {m : AList (fun _ : RouteKey => StreamCache)} {key : RouteKey}

theorem entry_bytes (key : RouteKey) (cache : StreamCache) :
    streamCacheEntryBytes key cache = RouteKey.bytes key + cache.bytes := rfl

theorem Sized.erase (h : Sized cfg m) (key : RouteKey) : Sized cfg (m.erase key) := by
  refine ⟨Nat.le_trans (Maps.total_erase_le _ m key) h.bytes, ?_, fun k cache hk =>
    h.fits k cache ((Maps.lookup_erase ..).mp hk).2⟩
  have hlen := h.entries
  rw [Maps.length_eq_total] at hlen ⊢
  exact Nat.le_trans (Maps.total_erase_le _ m key) hlen

theorem shed_sized {t u : CacheTable} (h : ReflTransGen (Sheds key) t u)
    (hs : Sized cfg t.streamCache) : Sized cfg u.streamCache := by
  induction h with
  | refl => exact hs
  | tail _ hshed ih =>
    obtain ⟨k, -, -, rfl⟩ := hshed
    exact ih.erase k

/-- Replacing an entry by one that takes no more room. -/
theorem Sized.shrink (h : Sized cfg m) {cache cache' : StreamCache} (hk : m.lookup key = some cache)
    (hb : cache'.bytes ≤ cache.bytes) (hf : EntryFits cache') (he : cache'.isEmpty = false) :
    Sized cfg (m.insert key cache') := by
  refine ⟨?_, ?_, fun k c hc => ?_⟩
  · have hold := Maps.total_erase streamCacheEntryBytes hk
    have hbytes := h.bytes
    rw [entry_bytes] at hold
    rw [Maps.total_insert, entry_bytes]
    omega
  · have hlen := h.entries
    rwa [Maps.length_eq_total, Maps.total_insert, Maps.total_erase _ hk, ← Maps.length_eq_total]
  · rcases (Maps.lookup_insert ..).mp hc with ⟨-, rfl⟩ | ⟨-, hc⟩
    · exact ⟨hf, he⟩
    · exact h.fits k c hc

/-- Storing a payload that was reserved room for. -/
theorem Sized.store {t u : CacheTable} {frame : RelayFrame} {replaced : StreamCache → Nat}
    {f : StreamCache → StreamCache} (h : Bounded cfg t)
    (hr : Reserved cfg t (frameReservation t frame replaced) (true, u))
    (hf : Updates frame.payload replaced f) :
    Sized cfg (u.streamCache.insert frame.route
      (f ((u.streamCache.lookup frame.route).getD {}))) := by
  have hu : Sized cfg u.streamCache := shed_sized hr.sheds h.sized
  have hsame : u.streamCache.lookup frame.route = t.streamCache.lookup frame.route :=
    shed_keeps hr.sheds
  have hprojected := hr.bytes rfl
  unfold projectedTotal frameReservation at hprojected
  dsimp only at hprojected
  rw [← hsame] at hprojected
  change Maps.total streamCacheEntryBytes u.streamCache + _ + _ - _ ≤ _ at hprojected
  cases hk : u.streamCache.lookup frame.route with
  | some cache =>
    have hcontains : u.contains frame.route = true := contains_iff.mpr ⟨cache, hk⟩
    rw [hk, if_pos hcontains, Option.map_some, Option.getD_some] at hprojected
    refine ⟨?_, ?_, fun k c hc => ?_⟩
    · have hold := Maps.total_erase streamCacheEntryBytes hk
      have hbytes := hf.bytes cache
      rw [entry_bytes] at hold
      rw [Maps.total_insert, Option.getD_some, entry_bytes]
      omega
    · have hlen := hu.entries
      rwa [Maps.length_eq_total, Maps.total_insert, Maps.total_erase _ hk, ← Maps.length_eq_total]
    · rcases (Maps.lookup_insert ..).mp hc with ⟨-, rfl⟩ | ⟨-, hc⟩
      · exact ⟨hf.fits _ (hu.fits _ _ hk).1, hf.filled _⟩
      · exact hu.fits k c hc
  | none =>
    have hcontains (v : CacheTable) (hv : v.streamCache.lookup frame.route = none) :
        v.contains frame.route = false := by
      rw [CacheTable.contains, hv]
      rfl
    rw [hk, if_neg (by rw [hcontains u hk]; decide), Option.map_none, Option.getD_none]
      at hprojected
    refine ⟨?_, ?_, fun k c hc => ?_⟩
    · have hbytes := hf.bytes {}
      have hfresh := hf.fresh
      have hempty : ({} : StreamCache).bytes = 0 := rfl
      rw [Maps.total_insert, Maps.erase_of_none hk, Option.getD_none, entry_bytes]
      omega
    · have hroom := hr.entries rfl h.owned h.sized.entries (hcontains t (hsame ▸ hk))
      rw [Maps.length_eq_total, Maps.total_insert, Maps.erase_of_none hk, ← Maps.length_eq_total]
      exact hroom
    · rcases (Maps.lookup_insert ..).mp hc with ⟨-, rfl⟩ | ⟨-, hc⟩
      · exact ⟨hf.fits _ entry_fits_empty, hf.filled _⟩
      · exact hu.fits k c hc

end Sizes

section Ownership

variable {t : CacheTable} {key : RouteKey}

def rowOf (t : CacheTable) (p : Nat) : List RouteKey := (t.publisherCacheKeys.lookup p).getD []

theorem tracks_iff_mem {p : Nat} : Tracks t p key ↔ key ∈ rowOf t p := by
  unfold Tracks rowOf
  cases t.publisherCacheKeys.lookup p <;> simp

theorem row_of_insert (t : CacheTable) (m : AList (fun _ : RouteKey => StreamCache)) (p q : Nat)
    (keys : List RouteKey) :
    rowOf ⟨m, t.publisherCacheKeys.insert p keys⟩ q = if q = p then keys else rowOf t q := by
  unfold rowOf
  split
  · rename_i hq
    rw [hq, AList.lookup_insert]
    rfl
  · rename_i hq
    rw [AList.lookup_insert_ne hq]

theorem row_of_erase (t : CacheTable) (m : AList (fun _ : RouteKey => StreamCache)) (p q : Nat) :
    rowOf ⟨m, t.publisherCacheKeys.erase p⟩ q = if q = p then [] else rowOf t q := by
  unfold rowOf
  split
  · rename_i hq
    rw [hq, AList.lookup_erase]
    rfl
  · rename_i hq
    rw [AList.lookup_erase_ne hq]

/-- The keys of the cache are those in the rows. -/
theorem Owned.mem (h : Owned t) (key : RouteKey) :
    t.contains key = true ↔ ∃ p, key ∈ rowOf t p := by
  simp only [h.keys, tracks_iff_mem]

theorem Owned.nodup (h : Owned t) (p : Nat) : (rowOf t p).Nodup := by
  unfold rowOf
  cases hrow : t.publisherCacheKeys.lookup p with
  | none => exact List.nodup_nil
  | some keys => exact (h.rows p keys hrow).2

/-- Changing one row: it must not be empty, and match the cache with the others. -/
theorem Owned.insert (h : Owned t) {m : AList (fun _ : RouteKey => StreamCache)} {p : Nat}
    {keys : List RouteKey} (hne : keys ≠ []) (hnd : keys.Nodup)
    (hm : ∀ key, (m.lookup key).isSome = true ↔ key ∈ keys ∨ ∃ q, q ≠ p ∧ key ∈ rowOf t q) :
    Owned ⟨m, t.publisherCacheKeys.insert p keys⟩ := by
  constructor
  · intro key
    simp only [CacheTable.contains, hm, tracks_iff_mem, row_of_insert]
    constructor
    · rintro (hk | ⟨q, hq, hk⟩)
      · exact ⟨p, by rwa [if_pos rfl]⟩
      · exact ⟨q, by rwa [if_neg hq]⟩
    · rintro ⟨q, hk⟩
      split at hk
      · exact .inl hk
      · rename_i hq
        exact .inr ⟨q, hq, hk⟩
  · intro q row hrow
    rcases (Maps.lookup_insert ..).mp hrow with ⟨-, rfl⟩ | ⟨-, hrow⟩
    · exact ⟨hne, hnd⟩
    · exact h.rows q row hrow

/-- Dropping one row. -/
theorem Owned.erase (h : Owned t) {m : AList (fun _ : RouteKey => StreamCache)} {p : Nat}
    (hm : ∀ key, (m.lookup key).isSome = true ↔ ∃ q, q ≠ p ∧ key ∈ rowOf t q) :
    Owned ⟨m, t.publisherCacheKeys.erase p⟩ := by
  constructor
  · intro key
    simp only [CacheTable.contains, hm, tracks_iff_mem, row_of_erase]
    constructor
    · rintro ⟨q, hq, hk⟩
      exact ⟨q, by rwa [if_neg hq]⟩
    · rintro ⟨q, hk⟩
      split at hk
      · cases hk
      · rename_i hq
        exact ⟨q, hq, hk⟩
  · intro q row hrow
    exact h.rows q row ((Maps.lookup_erase ..).mp hrow).2

/-- A key that is stored is tracked. -/
theorem Owned.store (h : Owned t) (p : Nat) (key : RouteKey) (f : StreamCache → StreamCache) :
    Owned ((t.trackPublisherCacheKey p key).updateEntry key f) := by
  have hmem (k : RouteKey) : k ∈ (if key ∈ rowOf t p then rowOf t p else rowOf t p ++ [key]) ↔
      k = key ∨ k ∈ rowOf t p := by
    split
    · rename_i hin
      exact ⟨.inr, fun hk => hk.elim (fun he => he ▸ hin) id⟩
    · simp [or_comm]
  refine h.insert (List.ne_nil_of_mem ((hmem key).mpr (.inl rfl))) ?_ fun k => ?_
  · change (if key ∈ rowOf t p then rowOf t p else rowOf t p ++ [key]).Nodup
    split
    · exact h.nodup p
    · rename_i hnew
      exact (h.nodup p).append (List.nodup_singleton _) (by simpa using hnew)
  · have hin := (h.mem k)
    change ((t.streamCache.insert key _).lookup k).isSome = true ↔
      k ∈ (if key ∈ rowOf t p then rowOf t p else rowOf t p ++ [key]) ∨ _
    rw [hmem]
    by_cases hk : k = key
    · subst hk
      simp
    · rw [AList.lookup_insert_ne hk]
      change t.contains k = true ↔ _
      rw [hin]
      constructor
      · rintro ⟨q, hq⟩
        by_cases hqp : q = p
        · exact .inl (.inr (hqp ▸ hq))
        · exact .inr ⟨q, hqp, hq⟩
      · rintro ((he | hp) | ⟨q, -, hq⟩)
        · exact absurd he hk
        · exact ⟨p, hp⟩
        · exact ⟨q, hq⟩

/-- An entry that changes but stays. -/
theorem Owned.update (h : Owned t) {cache cache' : StreamCache}
    (hk : t.streamCache.lookup key = some cache) :
    Owned { t with streamCache := t.streamCache.insert key cache' } := by
  refine ⟨fun k => ?_, h.rows⟩
  have hsame : CacheTable.contains { t with streamCache := t.streamCache.insert key cache' } k =
      t.contains k := by
    unfold CacheTable.contains
    by_cases hkey : k = key
    · subst hkey
      simp [hk]
    · simp [AList.lookup_insert_ne hkey]
  rw [hsame]
  exact h.keys k

theorem tracked_iff_row : t.tracked key = true ↔ ∃ p, key ∈ rowOf t p := by
  simp only [tracked_iff, tracks_iff_mem]

theorem remove_untracked_lookup (t : CacheTable) (key k : RouteKey) :
    ((t.removeUntracked key).streamCache.lookup k).isSome = true ↔
      (t.streamCache.lookup k).isSome = true ∧ (k = key → t.tracked k = true) := by
  unfold removeUntracked
  split
  · rename_i htracked
    exact ⟨fun hk => ⟨hk, fun he => he ▸ htracked⟩, fun hk => hk.1⟩
  · rename_i htracked
    dsimp only
    by_cases hk : k = key
    · subst hk
      simp [htracked]
    · simp [AList.lookup_erase_ne hk, hk]

theorem remove_untracked_rows (t : CacheTable) (key : RouteKey) :
    (t.removeUntracked key).publisherCacheKeys = t.publisherCacheKeys := by
  unfold removeUntracked
  split <;> rfl

theorem remove_all_untracked_rows (t : CacheTable) (keys : List RouteKey) :
    (keys.foldl removeUntracked t).publisherCacheKeys = t.publisherCacheKeys := by
  induction keys generalizing t with
  | nil => rfl
  | cons key keys ih => exact (ih _).trans (remove_untracked_rows t key)

theorem tracked_congr {t u : CacheTable} (h : u.publisherCacheKeys = t.publisherCacheKeys)
    (key : RouteKey) : u.tracked key = t.tracked key := by
  unfold CacheTable.tracked
  rw [h]

theorem remove_all_untracked_lookup (t : CacheTable) (keys : List RouteKey) (k : RouteKey) :
    ((keys.foldl removeUntracked t).streamCache.lookup k).isSome = true ↔
      (t.streamCache.lookup k).isSome = true ∧ (k ∈ keys → t.tracked k = true) := by
  induction keys generalizing t with
  | nil => simp
  | cons key keys ih =>
    rw [List.foldl_cons, ih, remove_untracked_lookup,
      tracked_congr (remove_untracked_rows t key), List.mem_cons]
    tauto

/-- What the rows have once one of them is replaced, and what the cache keeps of that. -/
theorem kept_iff (h : Owned t) {u : CacheTable} {p : Nat} {removed left : List RouteKey}
    (hu : ∀ q, rowOf u q = if q = p then left else rowOf t q)
    (hleft : ∀ k, k ∈ rowOf t p ↔ k ∈ left ∨ k ∈ removed) (k : RouteKey) :
    ((t.streamCache.lookup k).isSome = true ∧ (k ∈ removed → u.tracked k = true)) ↔
      k ∈ left ∨ ∃ q, q ≠ p ∧ k ∈ rowOf t q := by
  have htracked : u.tracked k = true ↔ k ∈ left ∨ ∃ q, q ≠ p ∧ k ∈ rowOf t q := by
    rw [tracked_iff_row]
    constructor
    · rintro ⟨q, hq⟩
      rw [hu] at hq
      split at hq
      · exact .inl hq
      · rename_i hne
        exact .inr ⟨q, hne, hq⟩
    · rintro (hk | ⟨q, hne, hq⟩)
      · exact ⟨p, by rwa [hu, if_pos rfl]⟩
      · exact ⟨q, by rwa [hu, if_neg hne]⟩
  have hcontains : (t.streamCache.lookup k).isSome = true ↔ ∃ q, k ∈ rowOf t q := h.mem k
  rw [htracked, hcontains]
  constructor
  · rintro ⟨⟨q, hq⟩, hremoved⟩
    by_cases hqp : q = p
    · subst hqp
      exact ((hleft k).mp hq).elim .inl hremoved
    · exact .inr ⟨q, hqp, hq⟩
  · intro hk
    refine ⟨?_, fun _ => hk⟩
    rcases hk with hk | ⟨q, -, hq⟩
    · exact ⟨p, (hleft k).mpr (.inl hk)⟩
    · exact ⟨q, hq⟩

/-- A key that is released leaves with its last owner. -/
theorem Owned.release (h : Owned t) (p : Nat) (key : RouteKey) : Owned (t.releaseKey p key) := by
  have hrow : (t.publisherCacheKeys.lookup p).getD [] = rowOf t p := rfl
  unfold releaseKey
  dsimp only
  rw [hrow]
  split
  · rename_i hin
    have hleft (k : RouteKey) :
        k ∈ rowOf t p ↔ k ∈ (rowOf t p).filter (fun k => k ≠ key) ∨ k ∈ [key] := by
      by_cases hk : k = key
      · simp [hk, hin]
      · simp [hk]
    generalize hfilter : (rowOf t p).filter (fun k => k ≠ key) = left at hleft
    have hkeys (u : CacheTable) (hrows : ∀ q, rowOf u q = if q = p then left else rowOf t q)
        (hu : u.streamCache = t.streamCache) (k : RouteKey) :
        ((u.removeUntracked key).streamCache.lookup k).isSome = true ↔
          k ∈ left ∨ ∃ q, q ≠ p ∧ k ∈ rowOf t q := by
      rw [remove_untracked_lookup, hu]
      simpa using kept_iff h hrows hleft k
    have hmk (u : CacheTable) : u.removeUntracked key =
        ⟨(u.removeUntracked key).streamCache, u.publisherCacheKeys⟩ := by
      rw [← remove_untracked_rows u key]
    rw [hmk]
    cases left with
    | nil =>
      refine h.erase fun k => ?_
      have hk := hkeys ⟨t.streamCache, t.publisherCacheKeys.erase p⟩
        (fun q => row_of_erase t t.streamCache p q) rfl k
      simpa using hk
    | cons k left =>
      refine h.insert (List.cons_ne_nil k left) ?_ fun k => ?_
      · rw [← hfilter]
        exact (h.nodup p).filter _
      · exact hkeys ⟨t.streamCache, t.publisherCacheKeys.insert p _⟩
          (fun q => row_of_insert t t.streamCache p q _) rfl k
  · exact h

theorem Owned.forget (h : Owned t) (p : Nat) : Owned (t.forgetPublisher p) := by
  unfold forgetPublisher
  cases hrow : t.publisherCacheKeys.lookup p with
  | none => exact h
  | some keys =>
    dsimp only
    have hkeys : rowOf t p = keys := by rw [rowOf, hrow, Option.getD_some]
    have hmk (u : CacheTable) : keys.foldl removeUntracked u =
        ⟨(keys.foldl removeUntracked u).streamCache, u.publisherCacheKeys⟩ := by
      rw [← remove_all_untracked_rows u keys]
    rw [hmk]
    refine h.erase fun k => ?_
    rw [remove_all_untracked_lookup]
    have hleft (k : RouteKey) : k ∈ rowOf t p ↔ k ∈ ([] : List RouteKey) ∨ k ∈ keys := by
      simp [hkeys]
    have hk := kept_iff h (row_of_erase t t.streamCache p) hleft k
    simpa using hk

end Ownership

section Steps

variable {cfg : CacheConfig} {t : CacheTable}

theorem bounded_empty (cfg : CacheConfig) : Bounded cfg {} :=
  ⟨⟨Nat.zero_le _, Nat.zero_le _, fun _ _ h => by simp at h⟩,
    fun _ => ⟨fun h => by simp [CacheTable.contains] at h,
      fun ⟨_, _, h, _⟩ => by simp at h⟩, fun _ _ h => by simp at h⟩

theorem Bounded.store (h : Bounded cfg t) {frame : RelayFrame} {replaced : StreamCache → Nat}
    {f : StreamCache → StreamCache} (hf : Updates frame.payload replaced f) :
    Bounded cfg (storeFrame cfg t frame replaced f) := by
  have hr := reserve_spec cfg t (frameReservation t frame replaced)
  rw [store_frame_eq]
  generalize reserveStreamCacheStorage cfg t (frameReservation t frame replaced) = result at hr
  obtain ⟨granted, u⟩ := result
  have hu : Bounded cfg u := ⟨shed_sized hr.sheds h.sized, shed_owned hr.sheds h.owned⟩
  cases granted with
  | false => exact hu
  | true =>
    have hs := Sized.store h hr hf
    exact ⟨hs, hu.owned.store _ _ f⟩

theorem Bounded.stale (h : Bounded cfg t) (key : RouteKey) {f : StreamCache → StreamCache}
    (hb : ∀ c, (f c).bytes ≤ c.bytes) (hf : ∀ c, EntryFits c → EntryFits (f c)) :
    Bounded cfg (t.dropStale key f) := by
  unfold dropStale
  cases hk : t.streamCache.lookup key with
  | none => exact h
  | some cache =>
    dsimp only
    have hfits := hf cache (h.sized.fits key cache hk).1
    split
    · -- The entry goes, so it does not matter that it was empty for a moment.
      refine ⟨?_, (h.owned.update hk).evict key⟩
      change Sized cfg ((t.streamCache.insert key (f cache)).erase key)
      rw [Maps.erase_insert]
      exact h.sized.erase key
    · rename_i hne
      exact ⟨h.sized.shrink hk (hb cache) hfits (Bool.eq_false_iff.mpr hne), h.owned.update hk⟩

/-- Caching a frame keeps the limits. -/
theorem Bounded.cache_frame (h : Bounded cfg t) (frame : RelayFrame) :
    Bounded cfg (cacheRelayFrame cfg t frame) := by
  unfold cacheRelayFrame
  dsimp only
  split
  · split
    · exact h
    split
    · exact h
    · rename_i hlen
      exact h.store (metadata_updates (Nat.not_lt.mp hlen))
  split
  · exact h
  · split
    · refine h.stale _ (fun c => ?_) fun c hc => ⟨hc.video, hc.audio, hc.metadata, nofun⟩
      simp [StreamCache.bytes, StreamCache.metadataBytes, StreamCache.keyframeBytes]
    · rename_i hlen
      exact h.store (keyframe_updates _ (Nat.not_lt.mp hlen))
  · split
    · refine h.stale _ (fun c => ?_) fun c hc => ⟨hc.video.drop _, hc.audio, hc.metadata, nofun⟩
      have hdrop := drop_bytes c.video (cfg.codec.sequenceTrackIds .video frame.cachedPayload)
      simp only [StreamCache.bytes, StreamCache.metadataBytes, StreamCache.keyframeBytes,
        Option.map_none, Option.getD_none]
      omega
    · rename_i hlen
      exact h.store (video_updates _ (Nat.not_lt.mp hlen))
  · split
    · refine h.stale _ (fun c => ?_) fun c hc => ⟨hc.video, hc.audio.drop _, hc.metadata,
        hc.keyframe⟩
      have hdrop := drop_bytes c.audio (cfg.codec.sequenceTrackIds .audio frame.cachedPayload)
      simp only [StreamCache.bytes, StreamCache.metadataBytes, StreamCache.keyframeBytes]
      omega
    · rename_i hlen
      exact h.store (audio_updates _ (Nat.not_lt.mp hlen))

theorem sized_remove_untracked (h : Sized cfg t.streamCache) (key : RouteKey) :
    Sized cfg (t.removeUntracked key).streamCache := by
  unfold removeUntracked
  split
  · exact h
  · exact h.erase key

theorem Bounded.release (h : Bounded cfg t) (p : Nat) (key : RouteKey) :
    Bounded cfg (t.releaseKey p key) := by
  refine ⟨?_, h.owned.release p key⟩
  unfold releaseKey
  dsimp only
  split
  · refine sized_remove_untracked ?_ key
    exact h.sized
  · exact h.sized

theorem Bounded.forget (h : Bounded cfg t) (p : Nat) : Bounded cfg (t.forgetPublisher p) := by
  refine ⟨?_, h.owned.forget p⟩
  unfold forgetPublisher
  cases t.publisherCacheKeys.lookup p with
  | none => exact h.sized
  | some keys =>
    dsimp only
    have hall (u : CacheTable) (hu : Sized cfg u.streamCache) :
        Sized cfg (keys.foldl removeUntracked u).streamCache := by
      induction keys generalizing u with
      | nil => exact hu
      | cons key keys ih => exact ih _ (sized_remove_untracked hu key)
    exact hall _ h.sized

end Steps

structure CacheInvariant (inv : CacheTable → Prop) : Prop where
  empty : inv {}
  release : ∀ {t}, inv t → ∀ p key, inv (t.releaseKey p key)
  forget : ∀ {t}, inv t → ∀ p, inv (t.forgetPublisher p)

theorem bounded_invariant (cfg : CacheConfig) : CacheInvariant (Bounded cfg) :=
  ⟨bounded_empty cfg, Bounded.release, Bounded.forget⟩

section Servers

variable {inv : CacheTable → Prop} {s : Server}

theorem CacheInvariant.drain_one (hi : CacheInvariant inv) (d : List Abandoned × Server)
    (h : inv d.2.cache) (i : Nat) : inv (Server.drainOne d i).2.cache := by
  unfold Server.drainOne
  split
  · exact h
  · rename_i c _
    dsimp only
    generalize c.pendingCacheEvictions ++ c.abandonedRelayRoutes = keys
    generalize d.2.cache = t at h
    induction keys generalizing t with
    | nil => exact h
    | cons key keys ih => exact ih _ (hi.release h c.connId key)

theorem CacheInvariant.drain (hi : CacheInvariant inv) (h : inv s.cache) :
    inv s.drainPendingCacheEvictions.2.cache := by
  have hall (rows : List Nat) (d : List Abandoned × Server) (hd : inv d.2.cache) :
      inv (rows.foldl Server.drainOne d).2.cache := by
    induction rows generalizing d with
    | nil => exact hd
    | cons i rows ih => exact ih _ (hi.drain_one d hd i)
  exact hall _ ([], s) h

theorem CacheInvariant.release_injected (hi : CacheInvariant inv) (h : inv s.cache)
    (route : RouteKey) : inv (s.releaseInjectedRoute route).cache := by
  unfold Server.releaseInjectedRoute
  dsimp only
  split
  · exact h
  · exact hi.forget h _

theorem push_orphan_cache (s : Server) (frame : RelayFrame) :
    (s.pushOrphanedRelay frame).cache = s.cache := by
  unfold Server.pushOrphanedRelay
  split <;> rfl

theorem push_orphans_cache (s : Server) (frames : List RelayFrame) :
    (frames.foldl Server.pushOrphanedRelay s).cache = s.cache := by
  induction frames generalizing s with
  | nil => rfl
  | cons frame frames ih => exact (ih _).trans (push_orphan_cache s frame)

theorem CacheInvariant.remove_one (hi : CacheInvariant inv) (p : Pass) (h : inv p.server.cache)
    (i : Nat) : inv (Pass.removeOne p i).server.cache := by
  unfold Pass.removeOne
  split
  · exact h
  · dsimp only
    refine hi.forget ?_ _
    unfold Server.releaseAllPublishRoutes
    dsimp only
    rwa [push_orphans_cache]

theorem CacheInvariant.release_all (hi : CacheInvariant inv) (h : inv s.cache) :
    inv s.releaseAllInjectedRoutes.cache := by
  unfold Server.releaseAllInjectedRoutes
  dsimp only
  generalize s.injectedRoutes = routes
  induction routes generalizing s with
  | nil => exact h
  | cons route routes ih => exact ih (hi.release_injected h route)

end Servers

inductive CacheOp where
  | cacheRelayFrame (frame : RelayFrame)
  | drainPendingCacheEvictions
  | removeConnection (i : Nat)
  | releaseInjectedRoute (route : RouteKey)
  | releaseAllInjectedRoutes
  | stop

def CacheOp.apply (cfg : CacheConfig) (t : CacheTable) (op : CacheOp × Server) : CacheTable :=
  let s := { op.2 with cache := t }
  match op.1 with
  | .cacheRelayFrame frame => LibRtmp.cacheRelayFrame cfg t frame
  | .drainPendingCacheEvictions => s.drainPendingCacheEvictions.2.cache
  | .removeConnection i => (Pass.removeOne { server := s } i).server.cache
  | .releaseInjectedRoute route => (s.releaseInjectedRoute route).cache
  | .releaseAllInjectedRoutes => s.releaseAllInjectedRoutes.cache
  | .stop => s.stop.cache

/-- Only storing a frame is left to look at. -/
theorem CacheInvariant.op {inv : CacheTable → Prop} (hi : CacheInvariant inv) {cfg : CacheConfig}
    {t : CacheTable} (h : inv t) (op : CacheOp × Server)
    (hframe : ∀ frame, op.1 = .cacheRelayFrame frame → inv (cacheRelayFrame cfg t frame)) :
    inv (CacheOp.apply cfg t op) := by
  obtain ⟨op, s⟩ := op
  have hs : inv { s with cache := t }.cache := h
  cases op with
  | cacheRelayFrame frame => exact hframe frame rfl
  | drainPendingCacheEvictions => exact hi.drain hs
  | removeConnection i => exact hi.remove_one { server := { s with cache := t } } h i
  | releaseInjectedRoute route => exact hi.release_injected hs route
  | releaseAllInjectedRoutes => exact hi.release_all hs
  | stop => exact hi.empty

section Runs

variable {cfg : CacheConfig}

theorem Bounded.op {t : CacheTable} (h : Bounded cfg t) (op : CacheOp × Server) :
    Bounded cfg (CacheOp.apply cfg t op) :=
  (bounded_invariant cfg).op h op fun frame _ => h.cache_frame frame

theorem inject_cache {codec : Codec} {s s' : Server} {now : Nat} {route : RouteKey}
    {frameType : FrameType} {timestamp : UInt32} {payload : List UInt8}
    (h : s.injectRelayFrame codec now route frameType timestamp payload = .ok s') :
    s'.cache = s.cache := by
  obtain ⟨id, t, ht, rfl⟩ := inject_spec h
  obtain ⟨_, _, _, rfl⟩ := claim_same ht
  rfl

/-- Every step of a run keeps the cache within its limits. -/
theorem Bounded.step {st st' : Stage} (h : Bounded cfg st.server.cache) (hs : st.Step cfg st') :
    Bounded cfg st'.server.cache := by
  rcases hs with (hs | hs) | hs
  · cases hs with
    | aside _ _ => exact h
    | replay i c hi => exact h
    | drain i _ => exact (bounded_invariant cfg).drain_one ([], st.server) h i
    | trim _ _ _ => exact h
    | take _ _ => exact h
    | handle frame rest abandoned connections cache events _ _ _ _ hc =>
      rw [hc]
      unfold Server.cacheRelayFrameUnlessOrphaned
      split
      · exact h.cache_frame frame
      · exact h
    | requeue frame _ _ =>
      unfold Server.requeueRelayFrame
      split
      · exact h
      · split
        · exact h
        · rwa [push_orphan_cache]
  · cases hs with
    | act i c act hi _ _ => exact h
    | detach i c claimed hi _ _ _ => exact h
    | remove i c _ _ => exact (bounded_invariant cfg).remove_one { server := st.server } h i
    | vacate connId => exact h
    | adjust i c c' _ _ => exact h
    | accept now transport fd =>
      unfold Server.addConnection
      split <;> exact h
    | inject now route frameType timestamp payload s hs _ => rwa [inject_cache hs]
    | release route _ => exact (bounded_invariant cfg).release_injected h route
    | forget route _ => exact h
    | tune _ => exact h
    | lead _ => exact h
  · cases hs with
    | ids => exact h
    | stop _ => exact bounded_empty cfg

theorem Bounded.course {st st' : Stage} (h : Bounded cfg st.server.cache)
    (hs : Course cfg st st') : Bounded cfg st'.server.cache := by
  induction hs with
  | refl => exact h
  | tail _ hstep ih => exact ih.step hstep

end Runs

/-- The cache is within its limits and owned as its records say, after any operations on it,
and in every state a server reaches. -/
theorem cache_bounded_and_owned (cfg : CacheConfig) :
    (∀ ops, Bounded cfg (Runs.exec (CacheOp.apply cfg) {} ops)) ∧
    ∀ settings ops, Bounded cfg (Server.run cfg { settings } ops).1.cache := by
  refine ⟨fun ops => Runs.exec_invariant (fun _ op h => h.op op) (bounded_empty cfg) ops,
    fun settings ops => ?_⟩
  have hrun := run_stages cfg { settings } [] ops
  generalize Server.run cfg { settings } ops = result at hrun
  have hempty : Bounded cfg (Stage.mk { settings } [] []).server.cache := bounded_empty cfg
  exact hempty.course hrun

end LibRtmp.Proofs
