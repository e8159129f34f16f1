import LibRtmp.Media.InitCache
import LibRtmp.Proofs.CacheMoves

namespace LibRtmp.Proofs

open CacheTable
open Relation (ReflTransGen)

/-- What a frame is to the init cache. A header is of one track, or a combined one. -/
inductive InitKind where
  | metadata
  | videoHeader (track : Option UInt8)
  | audioHeader (track : Option UInt8)
  | keyframe
  deriving DecidableEq

def seqTrack : List UInt8 → Option UInt8
  | [track] => some track
  | _ => none

section Kinds

variable (codec : Codec)

def initKind (frame : RelayFrame) : Option InitKind :=
  if frame.frameType = .script ∨ frame.frameType = .metadata then
    if frame.frameType = .script ∧ ¬ codec.isOnMetadata frame.payload then none
    else some .metadata
  else
    match codec.classify frame.frameType frame.cachedPayload with
    | .liveOnly => none
    | .videoKeyframe => some .keyframe
    | .videoSequenceHeader =>
      some (.videoHeader (seqTrack (codec.sequenceTrackIds .video frame.cachedPayload)))
    | .audioSequenceHeader =>
      some (.audioHeader (seqTrack (codec.sequenceTrackIds .audio frame.cachedPayload)))

def InitKind.cap : InitKind → Nat
  | .keyframe => maxCachedKeyframeBytes
  | _ => maxCachedInitFrameBytes

def replacedBy (frame : RelayFrame) : InitKind → StreamCache → Nat
  | .metadata => StreamCache.metadataBytes
  | .keyframe => StreamCache.keyframeBytes
  | .videoHeader _ => StreamCache.replacedByVideoHeader frame.payload
      (codec.sequenceTrackIds .video frame.cachedPayload)
  | .audioHeader _ => fun c =>
      c.audio.replacedBytes (codec.sequenceTrackIds .audio frame.cachedPayload)

def storedIn (frame : RelayFrame) : InitKind → StreamCache → StreamCache
  | .metadata => fun c => { c with metadata := some frame.payload }
  | .keyframe => fun c => { c with lastKeyframe := some (frame.timestamp, frame.payload) }
  | .videoHeader _ => StreamCache.storeVideoHeader frame.payload
      (codec.sequenceTrackIds .video frame.cachedPayload)
  | .audioHeader _ => fun c =>
      { c with audio :=
          c.audio.store frame.payload (codec.sequenceTrackIds .audio frame.cachedPayload) }

def clearedBy (frame : RelayFrame) : InitKind → StreamCache → StreamCache
  | .metadata => id
  | .keyframe => fun c => { c with lastKeyframe := none }
  | .videoHeader _ => fun c =>
      { c with
        video := c.video.drop (codec.sequenceTrackIds .video frame.cachedPayload)
        lastKeyframe := none }
  | .audioHeader _ => fun c =>
      { c with audio := c.audio.drop (codec.sequenceTrackIds .audio frame.cachedPayload) }

end Kinds

/-- The cache by kind of frame: oversized metadata is the one that clears nothing. -/
theorem cache_frame_eq (cfg : CacheConfig) (t : CacheTable) (frame : RelayFrame) :
    cacheRelayFrame cfg t frame =
      match initKind cfg.codec frame with
      | none => t
      | some kind =>
        if frame.payload.length > kind.cap then
          if kind = .metadata then t else t.dropStale frame.route (clearedBy cfg.codec frame kind)
        else
          storeFrame cfg t frame (replacedBy cfg.codec frame kind)
            (storedIn cfg.codec frame kind) := by
  unfold cacheRelayFrame initKind
  dsimp only
  split
  · split
    · rfl
    · rfl
  · cases cfg.codec.classify frame.frameType frame.cachedPayload <;> rfl

/-- A frame of the first kind makes what is in the slot of the second one stale. -/
def InitKind.supersedes : InitKind → InitKind → Bool
  | .metadata, .metadata => true
  | .keyframe, .keyframe => true
  | .videoHeader new, .videoHeader old => new.isNone || old.isNone || new == old
  | .audioHeader new, .audioHeader old => new.isNone || old.isNone || new == old
  | _, _ => false

def headerSlot (s : HeaderSlots) : Option UInt8 → Option (List UInt8)
  | none => s.header
  | some track => s.trackHeaders.lookup track

def slotOf (c : StreamCache) : InitKind → Option (List UInt8)
  | .metadata => c.metadata
  | .keyframe => c.lastKeyframe.map Prod.snd
  | .videoHeader track => headerSlot c.video track
  | .audioHeader track => headerSlot c.audio track

section Slots

variable (s : HeaderSlots) (payload tracks : List UInt8) (track : Option UInt8)

theorem empty_slot : headerSlot {} track = none := by
  cases track
  · rfl
  · simp [headerSlot]

theorem store_slot : headerSlot (s.store payload tracks) track =
    if seqTrack tracks = track then some payload
    else if (seqTrack tracks).isNone || track.isNone then none else headerSlot s track := by
  unfold HeaderSlots.store seqTrack
  split
  · cases track with
    | none => simp [headerSlot]
    | some k =>
      rename_i new
      by_cases hk : new = k
      · simp [headerSlot, hk]
      · simp [headerSlot, hk, AList.lookup_insert_ne (Ne.symm hk)]
  · cases track <;> simp [headerSlot]

theorem drop_slot : headerSlot (s.drop tracks) track =
    if (seqTrack tracks).isNone || track.isNone || seqTrack tracks == track then none
    else headerSlot s track := by
  unfold HeaderSlots.drop seqTrack
  split
  · cases track with
    | none => simp [headerSlot]
    | some k =>
      rename_i new
      by_cases hk : new = k
      · simp [headerSlot, hk]
      · simp [headerSlot, hk, AList.lookup_erase_ne (Ne.symm hk)]
  · simp [empty_slot]

theorem unchanged_slot (h : s.unchanged payload tracks = true) :
    headerSlot s (seqTrack tracks) = some payload := by
  rcases tracks with _ | ⟨track, _ | ⟨next, more⟩⟩
  · simp only [HeaderSlots.unchanged, Bool.and_eq_true, beq_iff_eq] at h
    exact h.1
  · simp only [HeaderSlots.unchanged, Bool.and_eq_true, beq_iff_eq] at h
    exact h.2
  · simp only [HeaderSlots.unchanged, Bool.and_eq_true, beq_iff_eq] at h
    exact h.1

end Slots

section Histories

variable (codec : Codec)

/-- The last frame that concerns the slot of a kind. Histories have the newest frame first. -/
def lastFor (kind : InitKind) (history : List RelayFrame) : Option RelayFrame :=
  history.find? (fun f => (initKind codec f).any (fun new => new.supersedes kind))

def repeats (history : List RelayFrame) (frame : RelayFrame) (kind : InitKind) : Bool :=
  (lastFor codec kind history).any (fun f =>
    decide (initKind codec f = some kind ∧ f.payload = frame.payload))

/-- The last keyframe, unless a different video header came after it. -/
def validKeyframe : List RelayFrame → Option (UInt32 × List UInt8)
  | [] => none
  | frame :: history =>
    match initKind codec frame with
    | some .keyframe => some (frame.timestamp, frame.payload)
    | some (.videoHeader track) =>
      if repeats codec history frame (.videoHeader track) then validKeyframe history else none
    | _ => validKeyframe history

structure Current (history : List RelayFrame) (c : StreamCache) : Prop where
  slots : ∀ kind payload, slotOf c kind = some payload →
    ∃ f, lastFor codec kind history = some f ∧ initKind codec f = some kind ∧ f.payload = payload
  keyframe : c.lastKeyframe = none ∨ c.lastKeyframe = validKeyframe codec history

theorem current_empty (history : List RelayFrame) : Current codec history {} :=
  ⟨fun kind payload h => by
    cases kind with
    | metadata => cases h
    | keyframe => cases h
    | videoHeader track => simp [slotOf, empty_slot] at h
    | audioHeader track => simp [slotOf, empty_slot] at h, .inl rfl⟩

structure Refreshes (frame : RelayFrame) (c c' : StreamCache) : Prop where
  slots : ∀ kind, slotOf c' kind = none ∨
    if (initKind codec frame).any (fun new => new.supersedes kind) then
      initKind codec frame = some kind ∧ slotOf c' kind = some frame.payload
    else slotOf c' kind = slotOf c kind
  keyframe : c'.lastKeyframe = none ∨
    match initKind codec frame with
    | some .keyframe => c'.lastKeyframe = some (frame.timestamp, frame.payload)
    | some (.videoHeader track) => c'.lastKeyframe = c.lastKeyframe ∧
        slotOf c (.videoHeader track) = some frame.payload
    | _ => c'.lastKeyframe = c.lastKeyframe

variable {codec : Codec} {history : List RelayFrame} {frame : RelayFrame} {c c' : StreamCache}

theorem last_for_cons (kind : InitKind) : lastFor codec kind (frame :: history) =
    if (initKind codec frame).any (fun new => new.supersedes kind) then some frame
    else lastFor codec kind history := by
  unfold lastFor
  rw [List.find?_cons]
  split <;> rename_i h <;> simp [h]

theorem Current.repeats (h : Current codec history c) {kind : InitKind}
    (hslot : slotOf c kind = some frame.payload) : repeats codec history frame kind = true := by
  obtain ⟨f, hlast, hkind, hpayload⟩ := h.slots kind _ hslot
  unfold Proofs.repeats
  rw [hlast]
  simp [hkind, hpayload]

theorem Current.refresh (h : Current codec history c) (hr : Refreshes codec frame c c') :
    Current codec (frame :: history) c' := by
  constructor
  · intro kind payload hslot
    rw [last_for_cons]
    rcases hr.slots kind with hnone | hsome
    · rw [hnone] at hslot
      cases hslot
    · split at hsome
      · rename_i hnew
        rw [hsome.2] at hslot
        cases hslot
        exact ⟨frame, by rw [if_pos hnew], hsome.1, rfl⟩
      · rename_i hnew
        rw [if_neg hnew]
        exact h.slots kind payload (hsome ▸ hslot)
  · rcases hr.keyframe with hnone | hsome
    · exact .inl hnone
    · unfold validKeyframe
      split at hsome
      · exact .inr hsome
      · rw [if_pos (h.repeats hsome.2), hsome.1]
        exact h.keyframe
      · rw [hsome]
        exact h.keyframe

theorem live_refreshes (hk : initKind codec frame = none) (c : StreamCache) :
    Refreshes codec frame c c := by
  constructor
  · intro kind
    right
    rw [hk]
    rfl
  · right
    rw [hk]

theorem init_kind_video {track : Option UInt8}
    (hk : initKind codec frame = some (.videoHeader track)) :
    track = seqTrack (codec.sequenceTrackIds .video frame.cachedPayload) := by
  unfold initKind at hk
  split at hk
  · split at hk <;> cases hk
  · split at hk <;> cases hk
    rfl

theorem init_kind_audio {track : Option UInt8}
    (hk : initKind codec frame = some (.audioHeader track)) :
    track = seqTrack (codec.sequenceTrackIds .audio frame.cachedPayload) := by
  unfold initKind at hk
  split at hk
  · split at hk <;> cases hk
  · split at hk <;> cases hk
    rfl

/-- A header slot after a header of this track, or a combined one, was stored. -/
theorem store_slot_cases (s : HeaderSlots) (payload tracks : List UInt8) (old : Option UInt8) :
    headerSlot (s.store payload tracks) old = none ∨
      if (seqTrack tracks).isNone || old.isNone || seqTrack tracks == old then
        seqTrack tracks = old ∧ headerSlot (s.store payload tracks) old = some payload
      else headerSlot (s.store payload tracks) old = headerSlot s old := by
  rw [store_slot]
  by_cases hsame : seqTrack tracks = old
  · right
    simp [hsame]
  · rw [if_neg hsame]
    cases hnone : (seqTrack tracks).isNone || old.isNone with
    | true => exact .inl (by simp)
    | false =>
      right
      simp [hsame]

theorem drop_slot_cases (s : HeaderSlots) (tracks : List UInt8) (old : Option UInt8) :
    headerSlot (s.drop tracks) old = none ∨
      ((seqTrack tracks).isNone || old.isNone || seqTrack tracks == old) = false ∧
        headerSlot (s.drop tracks) old = headerSlot s old := by
  rw [drop_slot]
  split
  · exact .inl rfl
  · rename_i h
    exact .inr ⟨Bool.eq_false_iff.mpr h, rfl⟩

/-- A frame that is stored refreshes its slots. -/
theorem stored_refreshes {kind : InitKind} (hk : initKind codec frame = some kind)
    (c : StreamCache) : Refreshes codec frame c (storedIn codec frame kind c) := by
  constructor
  · intro old
    rw [hk, Option.any_some]
    cases kind with
    | metadata => cases old <;> exact .inr (by simp [InitKind.supersedes, storedIn, slotOf])
    | keyframe => cases old <;> exact .inr (by simp [InitKind.supersedes, storedIn, slotOf])
    | audioHeader track =>
      cases old with
      | audioHeader old =>
        rw [init_kind_audio hk]
        simpa [InitKind.supersedes, slotOf, storedIn] using
          store_slot_cases c.audio frame.payload _ old
      | _ => exact .inr rfl
    | videoHeader track =>
      cases old with
      | videoHeader old =>
        rw [init_kind_video hk]
        simpa [InitKind.supersedes, slotOf, storedIn, StreamCache.storeVideoHeader] using
          store_slot_cases c.video frame.payload _ old
      | keyframe =>
        simp only [InitKind.supersedes, storedIn, slotOf, StreamCache.storeVideoHeader]
        split
        · exact .inr rfl
        · exact .inl rfl
      | _ => exact .inr rfl
  · rw [hk]
    cases kind with
    | metadata => exact .inr rfl
    | keyframe => exact .inr rfl
    | audioHeader track => exact .inr rfl
    | videoHeader track =>
      simp only [storedIn, StreamCache.storeVideoHeader]
      split
      · rename_i hsame
        refine .inr ⟨rfl, ?_⟩
        rw [init_kind_video hk]
        exact unchanged_slot _ _ _ hsame
      · exact .inl rfl

/-- Oversized metadata apart, an oversized frame clears what it makes stale. -/
theorem cleared_refreshes {kind : InitKind} (hk : initKind codec frame = some kind)
    (hm : kind ≠ .metadata) (c : StreamCache) :
    Refreshes codec frame c (clearedBy codec frame kind c) := by
  constructor
  · intro old
    rw [hk, Option.any_some]
    cases kind with
    | metadata => exact absurd rfl hm
    | keyframe =>
      cases old with
      | keyframe => exact .inl rfl
      | _ => exact .inr rfl
    | audioHeader track =>
      cases old with
      | audioHeader old =>
        rw [init_kind_audio hk]
        refine (drop_slot_cases c.audio _ old).imp_right fun h => ?_
        rw [InitKind.supersedes, h.1]
        exact h.2
      | _ => exact .inr rfl
    | videoHeader track =>
      cases old with
      | videoHeader old =>
        rw [init_kind_video hk]
        refine (drop_slot_cases c.video _ old).imp_right fun h => ?_
        rw [InitKind.supersedes, h.1]
        exact h.2
      | keyframe => exact .inl rfl
      | _ => exact .inr rfl
  · rw [hk]
    cases kind with
    | metadata => exact absurd rfl hm
    | audioHeader track => exact .inr rfl
    | _ => exact .inl rfl

structure NothingStale (codec : Codec) (frame : RelayFrame) (c : StreamCache) : Prop where
  slots : ∀ old, (initKind codec frame).any (fun new => new.supersedes old) = true →
    slotOf c old = none
  keyframe : ∀ track, initKind codec frame = some (.videoHeader track) → c.lastKeyframe = none

theorem NothingStale.refreshes (h : NothingStale codec frame c) : Refreshes codec frame c c := by
  constructor
  · intro old
    by_cases hnew : (initKind codec frame).any (fun new => new.supersedes old) = true
    · exact .inl (h.slots old hnew)
    · exact .inr (by rw [if_neg hnew])
  · cases hk : initKind codec frame with
    | none => exact .inr rfl
    | some kind =>
      cases kind with
      | keyframe =>
        have hslot := h.slots .keyframe (by rw [hk]; rfl)
        exact .inl (Option.map_eq_none_iff.mp hslot)
      | videoHeader track => exact .inl (h.keyframe track hk)
      | _ => exact .inr rfl

end Histories

/-- The frame is one to cache, but it is metadata above the limit or finds no room. -/
def leftOut (cfg : CacheConfig) (t : CacheTable) (frame : RelayFrame) : Bool :=
  match initKind cfg.codec frame with
  | none => false
  | some kind =>
    if frame.payload.length > kind.cap then kind == .metadata
    else !(reserveStreamCacheStorage cfg t
      (frameReservation t frame (replacedBy cfg.codec frame kind))).1

section Tables

variable {cfg : CacheConfig} {t : CacheTable} {frame : RelayFrame}

theorem stale_lookup {key route : RouteKey} {f : StreamCache → StreamCache} {c : StreamCache}
    (h : (t.dropStale key f).streamCache.lookup route = some c) :
    (route ≠ key ∧ t.streamCache.lookup route = some c) ∨
      (route = key ∧ ∃ old, t.streamCache.lookup key = some old ∧ c = f old) := by
  unfold dropStale at h
  cases hk : t.streamCache.lookup key with
  | none =>
    rw [hk] at h
    by_cases hr : route = key
    · subst hr
      rw [show t.streamCache.lookup route = some c from h] at hk
      cases hk
    · exact .inl ⟨hr, h⟩
  | some old =>
    rw [hk] at h
    dsimp only at h
    split at h
    · obtain ⟨hne, h⟩ := evict_lookup.mp h
      rcases (Maps.lookup_insert ..).mp h with ⟨heq, -⟩ | ⟨-, h⟩
      · exact absurd heq hne
      · exact .inl ⟨hne, h⟩
    · rcases (Maps.lookup_insert ..).mp h with ⟨heq, rfl⟩ | ⟨hne, h⟩
      · exact .inr ⟨heq, old, rfl, rfl⟩
      · exact .inl ⟨hne, h⟩

/-- The entries of other routes stay or go, and its own is refreshed unless it is left out. -/
theorem cache_frame_entry {route : RouteKey} {c : StreamCache}
    (h : (cacheRelayFrame cfg t frame).streamCache.lookup route = some c) :
    (route ≠ frame.route ∧ t.streamCache.lookup route = some c) ∨
      (route = frame.route ∧
        (Refreshes cfg.codec frame ((t.streamCache.lookup route).getD {}) c ∨
          leftOut cfg t frame = true ∧ t.streamCache.lookup route = some c)) := by
  rw [cache_frame_eq] at h
  unfold leftOut
  cases hk : initKind cfg.codec frame with
  | none =>
    rw [hk] at h
    by_cases hr : route = frame.route
    · refine .inr ⟨hr, .inl ?_⟩
      rw [show t.streamCache.lookup route = some c from h]
      exact live_refreshes hk c
    · exact .inl ⟨hr, h⟩
  | some kind =>
    rw [hk] at h
    dsimp only at h ⊢
    split at h
    · rename_i hbig
      rw [if_pos hbig]
      split at h
      · rename_i hmeta
        subst hmeta
        by_cases hr : route = frame.route
        · exact .inr ⟨hr, .inr ⟨rfl, h⟩⟩
        · exact .inl ⟨hr, h⟩
      · rename_i hmeta
        rcases stale_lookup h with hother | ⟨rfl, old, hold, rfl⟩
        · exact .inl hother
        · refine .inr ⟨rfl, .inl ?_⟩
          rw [hold]
          exact cleared_refreshes hk hmeta old
    · rename_i hbig
      rw [if_neg hbig]
      have hr := reserve_spec cfg t (frameReservation t frame (replacedBy cfg.codec frame kind))
      rw [store_frame_eq] at h
      generalize reserveStreamCacheStorage cfg t
        (frameReservation t frame (replacedBy cfg.codec frame kind)) = result at hr h
      obtain ⟨granted, u⟩ := result
      have hsame : u.streamCache.lookup frame.route = t.streamCache.lookup frame.route :=
        shed_keeps hr.sheds
      cases granted with
      | false =>
        by_cases hroute : route = frame.route
        · exact .inr ⟨hroute, .inr ⟨rfl, shed_lookup hr.sheds h⟩⟩
        · exact .inl ⟨hroute, shed_lookup hr.sheds h⟩
      | true =>
        rcases (Maps.lookup_insert ..).mp h with ⟨rfl, rfl⟩ | ⟨hne, h⟩
        · refine .inr ⟨rfl, .inl ?_⟩
          change Refreshes _ _ _ (storedIn cfg.codec frame kind
            ((u.streamCache.lookup frame.route).getD {}))
          rw [hsame]
          exact stored_refreshes hk _
        · exact .inl ⟨hne, shed_lookup hr.sheds h⟩

end Tables

/-- No frame is left out while the cache has a copy that it makes stale. -/
def Unbroken (cfg : CacheConfig) : CacheTable → List RelayFrame → Prop
  | _, [] => True
  | t, frame :: frames =>
    (leftOut cfg t frame = true → ∀ c, t.streamCache.lookup frame.route = some c →
      NothingStale cfg.codec frame c) ∧
    Unbroken cfg (cacheRelayFrame cfg t frame) frames

def historyOf (route : RouteKey) (frames : List RelayFrame) : List RelayFrame :=
  frames.reverse.filter (fun f => f.route == route)

def AllCurrent (codec : Codec) (past : List RelayFrame) (t : CacheTable) : Prop :=
  ∀ route c, t.streamCache.lookup route = some c → Current codec (historyOf route past) c

section Runs

variable {cfg : CacheConfig} {t : CacheTable}

theorem AllCurrent.step {past : List RelayFrame} (h : AllCurrent cfg.codec past t)
    {frame : RelayFrame} (hf : leftOut cfg t frame = true → ∀ c,
      t.streamCache.lookup frame.route = some c → NothingStale cfg.codec frame c) :
    AllCurrent cfg.codec (past ++ [frame]) (cacheRelayFrame cfg t frame) := by
  intro route c hc
  unfold historyOf
  rw [List.reverse_append, List.reverse_singleton, List.singleton_append]
  rcases cache_frame_entry hc with ⟨hne, hold⟩ | ⟨rfl, hown⟩
  · rw [List.filter_cons_of_neg (by simpa using Ne.symm hne)]
    exact h route c hold
  · rw [List.filter_cons_of_pos (by simp)]
    have hbefore : Current cfg.codec (historyOf frame.route past)
        ((t.streamCache.lookup frame.route).getD {}) := by
      cases hold : t.streamCache.lookup frame.route with
      | none => exact current_empty _ _
      | some old => exact h _ old hold
    rcases hown with hrefresh | ⟨hleft, hold⟩
    · exact hbefore.refresh hrefresh
    · rw [hold] at hbefore
      exact hbefore.refresh (hf hleft c hold).refreshes

theorem AllCurrent.run {past frames more : List RelayFrame} (h : AllCurrent cfg.codec past t)
    (hu : Unbroken cfg t (frames ++ more)) :
    AllCurrent cfg.codec (past ++ frames) (frames.foldl (cacheRelayFrame cfg) t) := by
  induction frames generalizing past t with
  | nil => rwa [List.append_nil]
  | cons frame frames ih =>
    rw [List.append_cons]
    exact ih (h.step hu.1) hu.2

end Runs

/-- If no frame is left out while there is a copy that it makes stale, then after each frame
every slot of a route is empty or has the last frame of the route that concerns it. -/
theorem cache_never_superseded (cfg : CacheConfig) (frames past : List RelayFrame)
    (hu : Unbroken cfg {} frames) (hp : past <+: frames) (route : RouteKey) (c : StreamCache)
    (hc : (past.foldl (cacheRelayFrame cfg) {}).streamCache.lookup route = some c) :
    Current cfg.codec (historyOf route past) c := by
  obtain ⟨more, rfl⟩ := hp
  have hstart : AllCurrent cfg.codec [] {} := fun route c h => by simp at h
  exact hstart.run hu route c hc

section Runs

def camFrame (frameType : FrameType) (payload : List UInt8) : RelayFrame :=
  ⟨frameType, 0, payload, none, "live", "cam", 1⟩

def refreshedFrames : List RelayFrame :=
  [camFrame .audio [0xAF, 0x00, 0x12, 0x10], camFrame .metadata [1],
    camFrame .audio [0xAF, 0x00, 0x11, 0x90], camFrame .metadata [2]]

theorem refreshed_frames_current :
    ∃ c, (refreshedFrames.foldl (cacheRelayFrame mediaConfig) {}).streamCache.lookup
        ("live", "cam") = some c ∧
      c.audio.header = some [0xAF, 0x00, 0x11, 0x90] ∧
      Current mediaCodec (historyOf ("live", "cam") refreshedFrames) c := by
  have hu : Unbroken mediaConfig {} refreshedFrames :=
    ⟨fun h => absurd h (by decide +kernel), fun h => absurd h (by decide +kernel),
      fun h => absurd h (by decide +kernel), fun h => absurd h (by decide +kernel), trivial⟩
  have haudio : ((refreshedFrames.foldl (cacheRelayFrame mediaConfig) {}).streamCache.lookup
      ("live", "cam")).any (fun c => c.audio.header == some [0xAF, 0x00, 0x11, 0x90]) = true := by
    decide +kernel
  obtain ⟨c, hc, hheader⟩ := Option.any_eq_true _ _ |>.mp haudio
  exact ⟨c, hc, by simpa using hheader, cache_never_superseded mediaConfig refreshedFrames
    refreshedFrames hu (List.prefix_refl _) _ c hc⟩

def largeMetadata : List UInt8 := List.replicate (maxCachedInitFrameBytes + 1) 0

def oversizedMetadata : List RelayFrame :=
  [camFrame .metadata [1], camFrame .metadata largeMetadata]

/-- A cache with room for one small header, and a larger header after a small one. -/
def tightConfig : CacheConfig := { mediaConfig with maxStreamCacheBytes := 16 }

def growingHeaders : List RelayFrame :=
  [camFrame .audio [0xAF, 0x00, 0x12, 0x10],
    camFrame .audio [0xAF, 0x00, 0x12, 0x10, 0x56, 0xE5, 0x00, 0x00, 0x00, 0x00]]

/-- In both cases the old copy stays in the cache. -/
theorem left_out_frames_leave_old_copy :
    (∃ c, (oversizedMetadata.foldl (cacheRelayFrame mediaConfig) {}).streamCache.lookup
        ("live", "cam") = some c ∧
      ¬ Current mediaCodec (historyOf ("live", "cam") oversizedMetadata) c) ∧
    ∃ c, (growingHeaders.foldl (cacheRelayFrame tightConfig) {}).streamCache.lookup
        ("live", "cam") = some c ∧
      ¬ Current mediaCodec (historyOf ("live", "cam") growingHeaders) c := by
  constructor
  · have hlarge : largeMetadata.length = maxCachedInitFrameBytes + 1 := List.length_replicate
    have hsame (t : CacheTable) :
        cacheRelayFrame mediaConfig t (camFrame .metadata largeMetadata) = t := by
      rw [cache_frame_eq]
      have hkind : initKind mediaConfig.codec (camFrame .metadata largeMetadata) =
          some .metadata := rfl
      have habove : largeMetadata.length > InitKind.metadata.cap :=
        hlarge ▸ Nat.lt_succ_self maxCachedInitFrameBytes
      rw [hkind]
      exact if_pos habove
    have hold : ((cacheRelayFrame mediaConfig {} (camFrame .metadata [1])).streamCache.lookup
        ("live", "cam")).any (fun c => c.metadata == some [1]) = true := by
      decide +kernel
    obtain ⟨c, hc, hmetadata⟩ := Option.any_eq_true _ _ |>.mp hold
    refine ⟨c, ?_, fun h => ?_⟩
    · rw [oversizedMetadata, List.foldl_cons, List.foldl_cons, List.foldl_nil, hsame]
      exact hc
    · obtain ⟨f, hlast, -, hpayload⟩ := h.slots .metadata [1] (beq_iff_eq.mp hmetadata)
      have hnew : lastFor mediaCodec .metadata (historyOf ("live", "cam") oversizedMetadata) =
          some (camFrame .metadata largeMetadata) := rfl
      rw [hnew] at hlast
      cases hlast
      have hlen : largeMetadata.length = 1 := congrArg List.length hpayload
      rw [hlarge] at hlen
      cases hlen
  · have hold : ((growingHeaders.foldl (cacheRelayFrame tightConfig) {}).streamCache.lookup
        ("live", "cam")).any (fun c => c.audio.header == some [0xAF, 0x00, 0x12, 0x10]) = true := by
      decide +kernel
    obtain ⟨c, hc, hheader⟩ := Option.any_eq_true _ _ |>.mp hold
    refine ⟨c, hc, fun h => ?_⟩
    obtain ⟨f, hlast, -, hpayload⟩ := h.slots (.audioHeader none) [0xAF, 0x00, 0x12, 0x10]
      (beq_iff_eq.mp hheader)
    have hnew : (lastFor mediaCodec (.audioHeader none)
        (historyOf ("live", "cam") growingHeaders)).any (fun f => f.payload.length == 10) =
          true := by
      decide +kernel
    rw [hlast, Option.any_some, hpayload] at hnew
    cases hnew

end Runs

end LibRtmp.Proofs
