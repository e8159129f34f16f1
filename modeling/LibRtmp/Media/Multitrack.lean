import LibRtmp.Media.Tags

namespace LibRtmp

structure VisitedTrack extends MediaTrackSlice where
  videoFrameType : Nat

def readFourcc (payload : List UInt8) (pos : Nat) : Option FourCc :=
  (FourCc.read (payload.drop pos)).map Prod.fst

def readTrackHeader (payload : List UInt8) (pos : Nat) (oneTrack : Bool) :
    Option (UInt8 × Nat × Nat) :=
  match payload.drop pos with
  | [] => none
  | trackId :: rest =>
    if oneTrack then some (trackId, pos + 1, payload.length - (pos + 1))
    else
      match rest with
      | a :: b :: c :: _ =>
        let len := Bytes.ofBe [a, b, c]
        if pos + 4 + len ≤ payload.length then some (trackId, pos + 4, len) else none
      | _ => none

structure TrackWalk where
  payload : List UInt8
  shared : Option FourCc
  oneTrack : Bool
  packetType : Nat
  videoFrameType : Nat

def TrackWalk.code (w : TrackWalk) (pos : Nat) : Option (FourCc × Nat) :=
  match w.shared with
  | some cc => some (cc, pos)
  | none => (readFourcc w.payload pos).map (fun cc => (cc, pos + 4))

def TrackWalk.loop {σ : Type} (w : TrackWalk) (visit : σ → VisitedTrack → σ) (left pos : Nat)
    (s : σ) : Bool × σ :=
  match w.code pos with
  | none => (false, s)
  | some (fourcc, pos) =>
    match readTrackHeader w.payload pos w.oneTrack with
    | none => (false, s)
    | some (trackId, body, len) =>
      match left with
      | 0 => (false, s)
      | left + 1 =>
        let s := visit s
          { trackId, packetType := w.packetType, fourcc, videoFrameType := w.videoFrameType
            payload := (w.payload.drop body).take len }
        let pos := body + len
        if w.oneTrack || pos == w.payload.length then (pos == w.payload.length, s)
        else w.loop visit left pos s

def videoFrameType (frameType : FrameType) (b0 : UInt8) : Nat :=
  if frameType = .video then highNibble b0 % 8 else 0

def walkTracks {σ : Type} (frameType : FrameType) (payload : List UInt8)
    (visit : σ → VisitedTrack → σ) (s : σ) : Bool × σ :=
  if !isMultitrackContainer frameType payload || payload.length < 3 then (false, s)
  else
    match payload with
    | b0 :: kind :: _ =>
      if highNibble kind > 2 then (false, s)
      else
        let walk : TrackWalk :=
          { payload
            shared := none
            oneTrack := highNibble kind == 0
            packetType := lowNibble kind
            videoFrameType := videoFrameType frameType b0 }
        if highNibble kind = 2 then walk.loop visit maxMultitrackSubtracks 2 s
        else
          match readFourcc payload 2 with
          | none => (false, s)
          | some cc => { walk with shared := some cc }.loop visit maxMultitrackSubtracks 6 s
    | _ => (false, s)

/-- Visit every track of a valid container; a first pass without visitor finds out. -/
def foreachTrack {σ : Type} (frameType : FrameType) (payload : List UInt8)
    (visit : σ → VisitedTrack → σ) (s : σ) : Bool × σ :=
  if (walkTracks frameType payload (fun (_ : Unit) _ => ()) ()).1 then
    walkTracks frameType payload visit s
  else (false, s)

/-! What the bytes mean. -/

inductive TrackList where
  | oneTrack (fourcc : FourCc) (trackId : UInt8) (body : List UInt8)
  | manyTracks (fourcc : FourCc) (tracks : List (UInt8 × List UInt8))
  | manyTracksManyCodecs (tracks : List (FourCc × UInt8 × List UInt8))

namespace TrackList

def form : TrackList → Nat
  | oneTrack _ _ _ => 0
  | manyTracks _ _ => 1
  | manyTracksManyCodecs _ => 2

def tracks : TrackList → List (FourCc × UInt8 × List UInt8)
  | oneTrack cc trackId body => [(cc, trackId, body)]
  | manyTracks cc ts => ts.map (fun t => (cc, t))
  | manyTracksManyCodecs ts => ts

def sized (trackId : UInt8) (body : List UInt8) : List UInt8 :=
  trackId :: (Bytes.toBe 3 body.length ++ body)

def bytes : TrackList → List UInt8
  | oneTrack cc trackId body => cc.bytes ++ trackId :: body
  | manyTracks cc ts => cc.bytes ++ ts.flatMap (fun t => sized t.1 t.2)
  | manyTracksManyCodecs ts => ts.flatMap (fun t => t.1.bytes ++ sized t.2.1 t.2.2)

structure WellFormed (l : TrackList) : Prop where
  some : l.tracks ≠ []
  cap : l.tracks.length ≤ maxMultitrackSubtracks
  sizes : l.form ≠ 0 → ∀ t ∈ l.tracks, t.2.2.length < 2 ^ 24

end TrackList

def MultitrackHeader (frameType : FrameType) (b0 : UInt8) : Prop :=
  match frameType with
  | .video => 8 ≤ highNibble b0 ∧ highNibble b0 % 8 ≠ videoFrameTypeCommand ∧ lowNibble b0 = 6
  | .audio => highNibble b0 = 9 ∧ lowNibble b0 = 5
  | _ => False

def containerBytes (b0 : UInt8) (packetType : Nat) (l : TrackList) : List UInt8 :=
  b0 :: ofNibbles l.form packetType :: l.bytes

structure ContainerOf (frameType : FrameType) (payload : List UInt8) (b0 : UInt8)
    (packetType : Nat) (l : TrackList) : Prop where
  header : MultitrackHeader frameType b0
  inner : packetType < 16
  tracks : l.WellFormed
  bytes : payload = containerBytes b0 packetType l

def visitedTracks (frameType : FrameType) (b0 : UInt8) (packetType : Nat) (l : TrackList) :
    List VisitedTrack :=
  l.tracks.map (fun t =>
    { trackId := t.2.1, packetType, fourcc := t.1, payload := t.2.2
      videoFrameType := videoFrameType frameType b0 })

def reencode (b0 : UInt8) (form : Nat) (ts : List VisitedTrack) : List UInt8 :=
  match ts with
  | [] => [b0]
  | t :: _ =>
    b0 :: ofNibbles form t.packetType ::
      match form with
      | 0 => t.fourcc.bytes ++ t.trackId :: t.payload
      | 1 => t.fourcc.bytes ++ ts.flatMap (fun t => TrackList.sized t.trackId t.payload)
      | _ => ts.flatMap (fun t => t.fourcc.bytes ++ TrackList.sized t.trackId t.payload)

end LibRtmp
