import LibRtmp.Lib.Maps
import LibRtmp.Server.Relay

namespace LibRtmp

inductive CacheFrameKind where
  | liveOnly | videoSequenceHeader | audioSequenceHeader | videoKeyframe
  deriving DecidableEq, Repr

inductive DeliveryHint where
  | critical | resyncPoint | droppable
  deriving DecidableEq, Repr

structure Codec where
  classify : FrameType → List UInt8 → CacheFrameKind
  isMultitrackContainer : FrameType → List UInt8 → Bool
  sequenceTrackIds : FrameType → List UInt8 → List UInt8
  isOnMetadata : List UInt8 → Bool
  normalize : FrameType → List UInt8 → Option (List UInt8)
  deliveryHint : FrameType → List UInt8 → Bool → DeliveryHint

def maxStreamCacheEntries : Nat := 1024
def maxStreamCacheKeysPerPublisher : Nat := 64
def maxCachedInitFrameBytes : Nat := 64 * 1024
def maxCachedKeyframeBytes : Nat := 2 * 1024 * 1024

structure HeaderSlots where
  header : Option (List UInt8) := none
  trackHeaders : AList (fun _ : UInt8 => List UInt8) := ∅

namespace HeaderSlots

def isEmpty (s : HeaderSlots) : Bool := s.header.isNone && s.trackHeaders.entries.isEmpty

def headerBytes (s : HeaderSlots) : Nat := (s.header.map List.length).getD 0

def trackBytes (s : HeaderSlots) : Nat := (s.trackHeaders.entries.map (fun e => e.2.length)).sum

def replacedBytes (s : HeaderSlots) : List UInt8 → Nat
  | [track] => s.headerBytes + ((s.trackHeaders.lookup track).map List.length).getD 0
  | _ => s.headerBytes + s.trackBytes

def drop (s : HeaderSlots) : List UInt8 → HeaderSlots
  | [track] => { header := none, trackHeaders := s.trackHeaders.erase track }
  | _ => {}

/-- Store a header: a single track's clears the combined one, any other clears all. -/
def store (s : HeaderSlots) (payload : List UInt8) : List UInt8 → HeaderSlots
  | [track] => { header := none, trackHeaders := s.trackHeaders.insert track payload }
  | _ => { header := some payload, trackHeaders := ∅ }

def unchanged (s : HeaderSlots) (payload : List UInt8) : List UInt8 → Bool
  | [track] => s.header.isNone && s.trackHeaders.lookup track == some payload
  | _ => s.header == some payload && s.trackHeaders.entries.isEmpty

end HeaderSlots

structure StreamCache where
  video : HeaderSlots := {}
  audio : HeaderSlots := {}
  metadata : Option (List UInt8) := none
  lastKeyframe : Option (UInt32 × List UInt8) := none

namespace StreamCache

def isEmpty (c : StreamCache) : Bool :=
  c.video.isEmpty && c.audio.isEmpty && c.metadata.isNone && c.lastKeyframe.isNone

def keyframeBytes (c : StreamCache) : Nat := (c.lastKeyframe.map (fun k => k.2.length)).getD 0

def metadataBytes (c : StreamCache) : Nat := (c.metadata.map List.length).getD 0

def bytes (c : StreamCache) : Nat :=
  c.video.headerBytes + c.video.trackBytes + c.audio.headerBytes + c.audio.trackBytes +
    c.metadataBytes + c.keyframeBytes

end StreamCache

def RouteKey.bytes (key : RouteKey) : Nat := key.1.utf8ByteSize + key.2.utf8ByteSize

def streamCacheEntryBytes (key : RouteKey) (cache : StreamCache) : Nat :=
  RouteKey.bytes key + cache.bytes

abbrev PublisherRow := Sigma (fun _ : Nat => List RouteKey)

/-- Limits and helpers of the cache. Publishers are visited in an arbitrary order. -/
structure CacheConfig where
  codec : Codec
  maxStreamCacheBytes : Nat
  order : List PublisherRow → List PublisherRow
  order_perm : ∀ rows, (order rows).Perm rows

structure CacheTable where
  streamCache : AList (fun _ : RouteKey => StreamCache) := ∅
  publisherCacheKeys : AList (fun _ : Nat => List RouteKey) := ∅

namespace CacheTable

def bytes (t : CacheTable) : Nat :=
  (t.streamCache.entries.map (fun e => streamCacheEntryBytes e.1 e.2)).sum

def contains (t : CacheTable) (key : RouteKey) : Bool := (t.streamCache.lookup key).isSome

def evictStreamCacheKey (t : CacheTable) (key : RouteKey) : CacheTable where
  streamCache := t.streamCache.erase key
  publisherCacheKeys := Maps.retain (fun _ keys => !keys.isEmpty)
    (Maps.mapValues (fun keys => keys.filter (fun k => k ≠ key)) t.publisherCacheKeys)

def cacheKeyCoTracked (t : CacheTable) (publisherConnId : Nat) (key : RouteKey) : Bool :=
  t.publisherCacheKeys.entries.any (fun row => row.1 ≠ publisherConnId && row.2.contains key)

def evictable (t : CacheTable) (publisherConnId : Nat) (exceptKey : RouteKey)
    (keys : List RouteKey) : Option RouteKey :=
  keys.find? (fun k => k ≠ exceptKey && !t.cacheKeyCoTracked publisherConnId k)

def evictStreamCacheForPublisher (t : CacheTable) (publisherConnId : Nat) (exceptKey : RouteKey) :
    Option CacheTable :=
  (t.publisherCacheKeys.lookup publisherConnId).bind (fun keys =>
    (t.evictable publisherConnId exceptKey keys).map t.evictStreamCacheKey)

def evictAnyExternalStreamCache (cfg : CacheConfig) (t : CacheTable) (exceptKey : RouteKey) :
    Option CacheTable :=
  ((cfg.order t.publisherCacheKeys.entries).findSome? (fun row =>
    if isExternalPublisherId row.1 then t.evictable row.1 exceptKey row.2 else none)).map
      t.evictStreamCacheKey

/-- A key of the same publisher goes first, then one of any injected route. -/
def evictForStreamCachePressure (cfg : CacheConfig) (t : CacheTable) (publisherConnId : Nat)
    (exceptKey : RouteKey) : Option CacheTable :=
  (t.evictStreamCacheForPublisher publisherConnId exceptKey).orElse
    (fun _ => evictAnyExternalStreamCache cfg t exceptKey)

def publisherCacheKeyCount (t : CacheTable) (publisherConnId : Nat) : Nat :=
  ((t.publisherCacheKeys.lookup publisherConnId).map List.length).getD 0

def streamCacheFreeableBytes (t : CacheTable) (key : RouteKey) (publisherConnId : Nat) : Nat :=
  ((t.streamCache.entries.filter (fun e =>
    e.1 ≠ key && !t.cacheKeyCoTracked publisherConnId e.1 &&
      t.publisherCacheKeys.entries.any (fun row => row.2.contains e.1 &&
        (row.1 == publisherConnId || isExternalPublisherId row.1)))).map
    (fun e => streamCacheEntryBytes e.1 e.2)).sum

structure Reservation where
  key : RouteKey
  incomingLen : Nat
  existingFieldLen : Nat
  publisherConnId : Nat

def projectedTotal (t : CacheTable) (r : Reservation) : Nat :=
  t.bytes + r.incomingLen + (if t.contains r.key then 0 else RouteKey.bytes r.key) -
    r.existingFieldLen

def makeRoom (cfg : CacheConfig) (r : Reservation) : Nat → CacheTable → Bool × CacheTable
  | 0, t => (decide (t.projectedTotal r ≤ cfg.maxStreamCacheBytes), t)
  | fuel + 1, t =>
    if t.projectedTotal r > cfg.maxStreamCacheBytes then
      match evictForStreamCachePressure cfg t r.publisherConnId r.key with
      | some t => makeRoom cfg r fuel t
      | none => (false, t)
    else (true, t)

def trackedKeys (t : CacheTable) : Nat :=
  (t.publisherCacheKeys.entries.map (fun row => row.2.length)).sum

/-- Bytes the reservation's own entry needs whatever else goes. -/
def irreducible (t : CacheTable) (r : Reservation) : Nat :=
  match t.streamCache.lookup r.key with
  | some cache => streamCacheEntryBytes r.key cache - r.existingFieldLen + r.incomingLen
  | none => r.incomingLen + RouteKey.bytes r.key

def reserveStreamCacheStorage (cfg : CacheConfig) (t : CacheTable) (r : Reservation) :
    Bool × CacheTable :=
  let isNewKey := !t.contains r.key
  if t.irreducible r > cfg.maxStreamCacheBytes then (false, t)
  else if t.projectedTotal r > cfg.maxStreamCacheBytes ∧
      t.projectedTotal r - t.streamCacheFreeableBytes r.key r.publisherConnId >
        cfg.maxStreamCacheBytes then (false, t)
  else
    let capped :=
      if isNewKey ∧ t.publisherCacheKeyCount r.publisherConnId ≥ maxStreamCacheKeysPerPublisher then
        t.evictStreamCacheForPublisher r.publisherConnId r.key
      else some t
    match capped with
    | none => (false, t)
    | some t =>
      let bounded :=
        if t.streamCache.entries.length ≥ maxStreamCacheEntries ∧ isNewKey then
          evictForStreamCachePressure cfg t r.publisherConnId r.key
        else some t
      match bounded with
      | none => (false, t)
      | some t => makeRoom cfg r t.trackedKeys t

def trackPublisherCacheKey (t : CacheTable) (publisherConnId : Nat) (key : RouteKey) : CacheTable :=
  let keys := (t.publisherCacheKeys.lookup publisherConnId).getD []
  { t with
    publisherCacheKeys := t.publisherCacheKeys.insert publisherConnId
      (if key ∈ keys then keys else keys ++ [key]) }

def updateEntry (t : CacheTable) (key : RouteKey) (f : StreamCache → StreamCache) : CacheTable :=
  { t with streamCache := t.streamCache.insert key (f ((t.streamCache.lookup key).getD {})) }

def storeFrame (cfg : CacheConfig) (t : CacheTable) (frame : RelayFrame)
    (replaced : StreamCache → Nat) (f : StreamCache → StreamCache) : CacheTable :=
  let existingFieldLen := ((t.streamCache.lookup frame.route).map replaced).getD 0
  match reserveStreamCacheStorage cfg t
      ⟨frame.route, frame.payload.length, existingFieldLen, frame.publisherConnId⟩ with
  | (false, t) => t
  | (true, t) => (t.trackPublisherCacheKey frame.publisherConnId frame.route).updateEntry frame.route f

/-- Drop what an oversized frame replaces, and the entry if that empties it. -/
def dropStale (t : CacheTable) (key : RouteKey) (f : StreamCache → StreamCache) : CacheTable :=
  match t.streamCache.lookup key with
  | none => t
  | some cache =>
    let t := { t with streamCache := t.streamCache.insert key (f cache) }
    if (f cache).isEmpty then t.evictStreamCacheKey key else t

end CacheTable

namespace StreamCache

/-- A changed video header drops the keyframe, which only decodes with the old one. -/
def storeVideoHeader (payload : List UInt8) (tracks : List UInt8) (c : StreamCache) : StreamCache :=
  { c with
    video := c.video.store payload tracks
    lastKeyframe := if c.video.unchanged payload tracks then c.lastKeyframe else none }

def replacedByVideoHeader (payload : List UInt8) (tracks : List UInt8) (c : StreamCache) : Nat :=
  c.video.replacedBytes tracks +
    (if c.video.unchanged payload tracks then 0 else c.keyframeBytes)

end StreamCache

open CacheTable in
def cacheRelayFrame (cfg : CacheConfig) (t : CacheTable) (frame : RelayFrame) : CacheTable :=
  let tracks (frameType : FrameType) := cfg.codec.sequenceTrackIds frameType frame.cachedPayload
  if frame.frameType = .script ∨ frame.frameType = .metadata then
    if frame.frameType = .script ∧ ¬ cfg.codec.isOnMetadata frame.payload then t
    else if frame.payload.length > maxCachedInitFrameBytes then t
    else
      storeFrame cfg t frame StreamCache.metadataBytes
        (fun c => { c with metadata := some frame.payload })
  else
    match cfg.codec.classify frame.frameType frame.cachedPayload with
    | .liveOnly => t
    | .videoKeyframe =>
      if frame.payload.length > maxCachedKeyframeBytes then
        t.dropStale frame.route (fun c => { c with lastKeyframe := none })
      else
        storeFrame cfg t frame StreamCache.keyframeBytes
          (fun c => { c with lastKeyframe := some (frame.timestamp, frame.payload) })
    | .videoSequenceHeader =>
      if frame.payload.length > maxCachedInitFrameBytes then
        t.dropStale frame.route (fun c =>
          { c with video := c.video.drop (tracks .video), lastKeyframe := none })
      else
        storeFrame cfg t frame (StreamCache.replacedByVideoHeader frame.payload (tracks .video))
          (StreamCache.storeVideoHeader frame.payload (tracks .video))
    | .audioSequenceHeader =>
      if frame.payload.length > maxCachedInitFrameBytes then
        t.dropStale frame.route (fun c => { c with audio := c.audio.drop (tracks .audio) })
      else
        storeFrame cfg t frame (fun c => c.audio.replacedBytes (tracks .audio))
          (fun c => { c with audio := c.audio.store frame.payload (tracks .audio) })

namespace CacheTable

def tracked (t : CacheTable) (key : RouteKey) : Bool :=
  t.publisherCacheKeys.entries.any (fun row => row.2.contains key)

def removeUntracked (t : CacheTable) (key : RouteKey) : CacheTable :=
  if t.tracked key then t else { t with streamCache := t.streamCache.erase key }

def releaseKey (t : CacheTable) (publisherConnId : Nat) (key : RouteKey) : CacheTable :=
  let keys := (t.publisherCacheKeys.lookup publisherConnId).getD []
  if key ∈ keys then
    let left := keys.filter (fun k => k ≠ key)
    let rows :=
      if left.isEmpty then t.publisherCacheKeys.erase publisherConnId
      else t.publisherCacheKeys.insert publisherConnId left
    removeUntracked { t with publisherCacheKeys := rows } key
  else t

def forgetPublisher (t : CacheTable) (publisherConnId : Nat) : CacheTable :=
  match t.publisherCacheKeys.lookup publisherConnId with
  | none => t
  | some keys =>
    keys.foldl removeUntracked
      { t with publisherCacheKeys := t.publisherCacheKeys.erase publisherConnId }

end CacheTable

end LibRtmp
