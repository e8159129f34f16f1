import LibRtmp.Media.Multitrack

namespace LibRtmp.Proofs

variable {payload : List UInt8} {tracks : List MediaTrackSlice}

abbrev TrackData := FourCc × UInt8 × List UInt8

section Parsing

variable {shared : Option FourCc} {packetType left : Nat} {bytes : List UInt8}

theorem read_track_sized {trackId : UInt8} {body rest : List UInt8} :
    readTrack false bytes = some (trackId, body, rest) ↔
      body.length < 2 ^ 24 ∧ bytes = TrackList.sized trackId body ++ rest := by
  constructor
  · intro h
    match bytes with
    | [] => cases h
    | [_] => cases h
    | [_, _] => cases h
    | [_, _, _] => cases h
    | i :: a :: b :: c :: more =>
      simp only [readTrack, Bool.false_eq_true, if_false] at h
      split at h
      · rename_i hsize
        cases h
        have hlen : (more.take (Bytes.ofBe [a, b, c])).length = Bytes.ofBe [a, b, c] := by
          rw [List.length_take, Nat.min_eq_left hsize]
        refine ⟨?_, ?_⟩
        · rw [hlen]
          simpa using Bytes.of_be_lt [a, b, c]
        · rw [TrackList.sized, hlen, show Bytes.toBe 3 (Bytes.ofBe [a, b, c]) = [a, b, c] from
            Bytes.to_be_of_be [a, b, c]]
          simp
      · cases h
  · rintro ⟨hlen, rfl⟩
    obtain ⟨a, b, c, habc⟩ : ∃ a b c, Bytes.toBe 3 body.length = [a, b, c] :=
      ⟨_, _, _, rfl⟩
    have hsize : Bytes.ofBe [a, b, c] = body.length := by
      rw [← habc]
      exact Bytes.of_be_to_be_lt hlen
    simp only [TrackList.sized, habc, readTrack, List.cons_append, List.nil_append,
      Bool.false_eq_true, if_false, hsize, List.length_append, Nat.le_add_right, if_true,
      List.take_left, List.drop_left]

def trackBytes (shared : Option FourCc) (t : TrackData) : List UInt8 :=
  (if shared.isSome then [] else t.1.bytes) ++ TrackList.sized t.2.1 t.2.2

def trackSlice (packetType : Nat) (t : TrackData) : MediaTrackSlice :=
  ⟨t.2.1, packetType, t.1, t.2.2⟩

structure ListedTracks (shared : Option FourCc) (left : Nat) (ts : List TrackData) : Prop where
  some : ts ≠ []
  cap : ts.length ≤ left
  sizes : ∀ t ∈ ts, t.2.2.length < 2 ^ 24
  codes : ∀ cc, shared = .some cc → ∀ t ∈ ts, t.1 = cc

theorem fourcc_read_bytes (cc : FourCc) (rest : List UInt8) :
    FourCc.read (cc.bytes ++ rest) = some (cc, rest) := rfl

theorem fourcc_bytes_read {cc : FourCc} {rest : List UInt8}
    (h : FourCc.read bytes = some (cc, rest)) : bytes = cc.bytes ++ rest := by
  match bytes with
  | [] => cases h
  | [_] => cases h
  | [_, _] => cases h
  | [_, _, _] => cases h
  | a :: b :: c :: d :: more =>
    cases h
    rfl

def nextCode (shared : Option FourCc) (bytes : List UInt8) : Option (FourCc × List UInt8) :=
  shared.elim (FourCc.read bytes) (fun cc => some (cc, bytes))

theorem next_code_read {cc : FourCc} {rest : List UInt8} :
    nextCode shared bytes = some (cc, rest) ↔
      (∀ c, shared = some c → cc = c) ∧
        bytes = (if shared.isSome then [] else cc.bytes) ++ rest := by
  cases shared with
  | none =>
    constructor
    · intro h
      exact ⟨by simp, fourcc_bytes_read h⟩
    · rintro ⟨-, rfl⟩
      exact fourcc_read_bytes cc rest
  | some c =>
    constructor
    · intro h
      cases h
      exact ⟨fun _ hc => Option.some.inj hc, rfl⟩
    · rintro ⟨hc, rfl⟩
      cases hc c rfl
      rfl

/-- Only listed tracks are read. -/
theorem read_tracks_sound (h : readTracks shared false packetType left bytes = some tracks) :
    ∃ ts, ListedTracks shared left ts ∧ bytes = ts.flatMap (trackBytes shared) ∧
      tracks = ts.map (trackSlice packetType) := by
  induction left generalizing bytes tracks with
  | zero => cases h
  | succ left ih =>
    rw [readTracks] at h
    split at h
    · cases h
    · rename_i cc rest hcode
      obtain ⟨hshared, hbytes⟩ := next_code_read.mp hcode
      split at h
      · cases h
      · rename_i trackId body more htrack
        obtain ⟨hlen, rfl⟩ := read_track_sized.mp htrack
        simp only [Bool.false_or] at h
        split at h
        · rename_i hlast
          cases h
          rw [List.isEmpty_iff] at hlast
          refine ⟨[(cc, trackId, body)], ⟨by simp, by simp, by simpa using hlen, ?_⟩, ?_, rfl⟩
          · simpa using hshared
          · rw [hbytes, hlast]
            simp [trackBytes]
        · obtain ⟨later, hlater, rfl⟩ := Option.map_eq_some_iff.mp h
          obtain ⟨ts, hts, hmore, rfl⟩ := ih hlater
          refine ⟨(cc, trackId, body) :: ts, ⟨by simp, ?_, ?_, ?_⟩, ?_, rfl⟩
          · exact Nat.succ_le_succ hts.cap
          · intro t ht
            rcases List.mem_cons.mp ht with rfl | ht
            · exact hlen
            · exact hts.sizes t ht
          · intro c hc t ht
            rcases List.mem_cons.mp ht with rfl | ht
            · exact hshared c hc
            · exact hts.codes c hc t ht
          · rw [hbytes, hmore]
            simp [trackBytes]

/-- Listed tracks are read back. -/
theorem read_tracks_complete {ts : List TrackData} (h : ListedTracks shared left ts) :
    readTracks shared false packetType left (ts.flatMap (trackBytes shared)) =
      some (ts.map (trackSlice packetType)) := by
  induction ts generalizing left with
  | nil => exact absurd rfl h.some
  | cons t ts ih =>
    obtain ⟨cc, trackId, body⟩ := t
    obtain ⟨left, rfl⟩ : ∃ n, left = n + 1 :=
      Nat.exists_eq_succ_of_ne_zero (by
        have := h.cap
        simp only [List.length_cons] at this
        omega)
    have hcode : nextCode shared (((cc, trackId, body) :: ts).flatMap (trackBytes shared)) =
        some (cc, TrackList.sized trackId body ++ ts.flatMap (trackBytes shared)) := by
      refine next_code_read.mpr ⟨fun c hc => h.codes c hc _ List.mem_cons_self, ?_⟩
      rw [List.flatMap_cons, trackBytes, List.append_assoc]
    have htrack : readTrack false (TrackList.sized trackId body ++ ts.flatMap (trackBytes shared)) =
        some (trackId, body, ts.flatMap (trackBytes shared)) :=
      read_track_sized.mpr ⟨h.sizes _ List.mem_cons_self, rfl⟩
    rw [readTracks]
    unfold nextCode at hcode
    rw [hcode]
    dsimp only
    rw [htrack]
    dsimp only
    cases ts with
    | nil => rfl
    | cons u us =>
      rw [if_neg (by simp [trackBytes, TrackList.sized])]
      have hrest : ListedTracks shared left (u :: us) := by
        refine ⟨by simp, Nat.le_of_succ_le_succ h.cap, ?_, ?_⟩
        · exact fun t ht => h.sizes t (List.mem_cons_of_mem _ ht)
        · exact fun c hc t ht => h.codes c hc t (List.mem_cons_of_mem _ ht)
      rw [ih hrest]
      rfl

end Parsing

section Cursor

theorem read_fourcc_read (payload : List UInt8) (pos : Nat) :
    FourCc.read (payload.drop pos) =
      (readFourcc payload pos).map (fun cc => (cc, payload.drop (pos + 4))) := by
  rw [readFourcc, ← List.drop_drop]
  generalize payload.drop pos = bytes
  match bytes with
  | [] => rfl
  | [_] => rfl
  | [_, _] => rfl
  | [_, _, _] => rfl
  | _ :: _ :: _ :: _ :: _ => rfl

/-- A header gives the parts that `readTrack` cuts out. -/
theorem track_header_read (payload : List UInt8) (pos : Nat) (oneTrack : Bool) :
    readTrack oneTrack (payload.drop pos) =
      (readTrackHeader payload pos oneTrack).map (fun h =>
        (h.1, (payload.drop h.2.1).take h.2.2, payload.drop (h.2.1 + h.2.2))) := by
  have hlen : (payload.drop pos).length = payload.length - pos := List.length_drop
  have hdrop : ∀ n, payload.drop (pos + n) = (payload.drop pos).drop n :=
    fun n => List.drop_drop.symm
  rw [readTrackHeader]
  generalize hbytes : payload.drop pos = bytes at hlen hdrop
  match bytes, oneTrack with
  | [], _ => rfl
  | trackId :: rest, true =>
    have hrest : payload.length - (pos + 1) = rest.length := by
      simp only [List.length_cons] at hlen
      omega
    have hnone : payload.drop (pos + 1 + rest.length) = [] := by
      rw [← List.drop_drop, hdrop 1, List.drop_succ_cons, List.drop_zero, List.drop_length]
    simp [readTrack, hrest, hdrop 1, hnone]
  | [_], false => rfl
  | [_, _], false => rfl
  | [_, _, _], false => rfl
  | trackId :: a :: b :: c :: rest, false =>
    have hfits : pos + 4 + Bytes.ofBe [a, b, c] ≤ payload.length ↔
        Bytes.ofBe [a, b, c] ≤ rest.length := by
      simp only [List.length_cons] at hlen
      omega
    have hrest : payload.drop (pos + 4) = rest := hdrop 4
    simp only [readTrack, Bool.false_eq_true, if_false, hfits]
    split
    · have hafter : payload.drop (pos + 4 + Bytes.ofBe [a, b, c]) =
          rest.drop (Bytes.ofBe [a, b, c]) := by rw [← List.drop_drop, hrest]
      simp only [Option.map_some, hrest, hafter]
    · rfl

theorem track_header_ends {pos body len : Nat} {oneTrack : Bool}
    {trackId : UInt8} (h : readTrackHeader payload pos oneTrack = some (trackId, body, len)) :
    body + len ≤ payload.length ∧ (oneTrack → body + len = payload.length) := by
  have hlen : (payload.drop pos).length = payload.length - pos := List.length_drop
  rw [readTrackHeader] at h
  split at h
  · cases h
  · rename_i rest hbytes
    rw [hbytes, List.length_cons] at hlen
    split at h
    · cases h
      have hends : pos + 1 + (payload.length - (pos + 1)) = payload.length := by omega
      exact ⟨Nat.le_of_eq hends, fun _ => hends⟩
    · rename_i hmany
      split at h
      · dsimp only at h
        split at h
        · cases h
          exact ⟨by assumption, fun hone => absurd hone hmany⟩
        · cases h
      · cases h

variable {σ : Type} (visit : σ → VisitedTrack → σ)

structure Shows (videoFrameType : Nat) (parsed : Option (List MediaTrackSlice)) (s : σ)
    (r : Bool × σ) : Prop where
  verdict : r.1 = parsed.isSome
  visits : ∀ tracks, parsed = some tracks →
    r.2 = (tracks.map (fun t => ({ t with videoFrameType } : VisitedTrack))).foldl visit s

theorem shows_refusal (videoFrameType : Nat) (s s' : σ) :
    Shows visit videoFrameType none s (false, s') :=
  ⟨rfl, fun _ h => nomatch h⟩

theorem cursor_code (w : TrackWalk) (pos : Nat) :
    nextCode w.shared (w.payload.drop pos) =
      (w.code pos).map (fun c => (c.1, w.payload.drop c.2)) := by
  rw [nextCode, TrackWalk.code]
  cases w.shared with
  | none =>
    rw [Option.elim_none, read_fourcc_read, Option.map_map]
    rfl
  | some cc => rfl

/-- The walk visits what the parser reads. -/
theorem loop_shows (w : TrackWalk) (left pos : Nat) (s : σ) :
    Shows visit w.videoFrameType
      (readTracks w.shared w.oneTrack w.packetType left (w.payload.drop pos)) s
      (w.loop visit left pos s) := by
  -- one turn of the loop is one track of the parser; the induction is on the room left
  induction left generalizing pos s with
  | zero =>
    rw [readTracks, TrackWalk.loop]
    split
    · exact shows_refusal visit _ s s
    · split
      · exact shows_refusal visit _ s s
      · exact shows_refusal visit _ s s
  | succ left ih =>
    have hcode := cursor_code w pos
    cases hcursor : w.code pos with
    | none =>
      rw [hcursor] at hcode
      unfold nextCode at hcode
      rw [readTracks, hcode, TrackWalk.loop, hcursor]
      exact shows_refusal visit _ s s
    | some code =>
      obtain ⟨fourcc, next⟩ := code
      rw [hcursor] at hcode
      unfold nextCode at hcode
      rw [readTracks, hcode, TrackWalk.loop, hcursor]
      dsimp only [Option.map_some]
      rw [track_header_read]
      cases hheader : readTrackHeader w.payload next w.oneTrack with
      | none => exact shows_refusal visit _ s s
      | some header =>
        obtain ⟨trackId, body, len⟩ := header
        obtain ⟨hends, hone⟩ := track_header_ends hheader
        have hlast : (w.payload.drop (body + len)).isEmpty =
            (body + len == w.payload.length) := by
          rw [Bool.eq_iff_iff, List.isEmpty_iff, List.drop_eq_nil_iff, beq_iff_eq]
          omega
        dsimp only [Option.map_some]
        rw [hlast]
        split
        · rename_i hstop
          refine ⟨?_, ?_⟩
          · rw [Option.isSome_some, beq_iff_eq]
            rcases Bool.or_eq_true_iff.mp hstop with hstop | hstop
            · exact hone hstop
            · exact beq_iff_eq.mp hstop
          · intro tracks h
            cases h
            rfl
        · obtain ⟨hverdict, hvisits⟩ := ih (body + len)
            (visit s { trackId, packetType := w.packetType, fourcc
                       videoFrameType := w.videoFrameType
                       payload := (w.payload.drop body).take len })
          refine ⟨?_, ?_⟩
          · rw [hverdict, Option.isSome_map]
          · intro tracks h
            obtain ⟨later, hlater, rfl⟩ := Option.map_eq_some_iff.mp h
            exact hvisits later hlater

/-- The walk and the parser agree on every payload. -/
theorem walk_tracks_shows (frameType : FrameType) (b0 : UInt8) (rest : List UInt8) (s : σ) :
    Shows visit (videoFrameType frameType b0)
      (multitrackTracks frameType (b0 :: rest)) s (walkTracks frameType (b0 :: rest) visit s) := by
  unfold multitrackTracks walkTracks
  cases hmulti : isMultitrackContainer frameType (b0 :: rest) with
  | false => exact shows_refusal visit _ s s
  | true =>
    match rest with
    | [] => exact shows_refusal visit _ s s
    | [_] => exact shows_refusal visit _ s s
    | kind :: x :: more =>
      rw [if_neg (by simp), if_neg (by simp)]
      dsimp only
      by_cases hbad : highNibble kind > 2
      · rw [if_pos (.inr hbad), if_pos hbad]
        exact shows_refusal visit _ s s
      · rw [if_neg (by simpa using hbad), if_neg hbad]
        by_cases hform : highNibble kind = 2
        · rw [if_pos hform, if_pos hform, hform]
          exact loop_shows visit ⟨b0 :: kind :: x :: more, none, false, lowNibble kind,
            videoFrameType frameType b0⟩ maxMultitrackSubtracks 2 s
        · have hread : FourCc.read (x :: more) =
              (readFourcc (b0 :: kind :: x :: more) 2).map (fun cc => (cc, more.drop 3)) :=
            read_fourcc_read (b0 :: kind :: x :: more) 2
          rw [if_neg hform, if_neg hform, hread]
          cases readFourcc (b0 :: kind :: x :: more) 2 with
          | none => exact shows_refusal visit _ s s
          | some cc =>
            exact loop_shows visit ⟨b0 :: kind :: x :: more, some cc, highNibble kind == 0,
              lowNibble kind, videoFrameType frameType b0⟩ maxMultitrackSubtracks 6 s

/-- The first pass finds out what the parser says, so the second visits all or nothing. -/
theorem foreach_track_parses (frameType : FrameType) (b0 : UInt8) (rest : List UInt8) (s : σ) :
    foreachTrack frameType (b0 :: rest) visit s =
      match multitrackTracks frameType (b0 :: rest) with
      | none => (false, s)
      | some tracks =>
        (true, (tracks.map (fun t =>
          ({ t with videoFrameType := videoFrameType frameType b0 } : VisitedTrack))).foldl
            visit s) := by
  have hfirst := (walk_tracks_shows (fun (_ : Unit) _ => ()) frameType b0 rest ()).verdict
  obtain ⟨hverdict, hvisits⟩ := walk_tracks_shows visit frameType b0 rest s
  rw [foreachTrack, hfirst]
  cases hparsed : multitrackTracks frameType (b0 :: rest) with
  | none => rfl
  | some tracks =>
    rw [hparsed] at hverdict
    exact Prod.ext hverdict (hvisits tracks hparsed)

end Cursor

section Exact

variable {frameType : FrameType} {b0 : UInt8} {packetType : Nat} {l : TrackList}

theorem high_of_nibbles {high low : Nat} (hh : high < 16) (hl : low < 16) :
    highNibble (ofNibbles high low) = high := by
  rw [highNibble, ofNibbles, UInt8.toNat_ofNat']
  omega

theorem low_of_nibbles {high low : Nat} (hl : low < 16) :
    lowNibble (ofNibbles high low) = low := by
  rw [lowNibble, ofNibbles, UInt8.toNat_ofNat']
  omega

theorem of_nibbles_self (b : UInt8) : ofNibbles (highNibble b) (lowNibble b) = b := by
  have hb : b.toNat / 16 * 16 + b.toNat % 16 = b.toNat := by omega
  rw [ofNibbles, highNibble, lowNibble, hb, UInt8.ofNat_toNat]

theorem low_nibble_lt (b : UInt8) : lowNibble b < 16 := Nat.mod_lt _ (by decide)

theorem multitrack_header (rest : List UInt8) :
    isMultitrackContainer frameType (b0 :: rest) ↔ MultitrackHeader frameType b0 := by
  cases frameType with
  | video =>
    simp [isMultitrackContainer, MultitrackHeader, isEnhancedTag, isVideoCommandTag,
      multitrackPacketType, ertmpVideoPacketTypeMultitrack]
    omega
  | audio =>
    simp [isMultitrackContainer, MultitrackHeader, isEnhancedTag,
      multitrackPacketType, ertmpAudioPacketTypeMultitrack]
    omega
  | metadata => simp [isMultitrackContainer, MultitrackHeader, multitrackPacketType]
  | script => simp [isMultitrackContainer, MultitrackHeader, multitrackPacketType]

/-- A well-formed list as the parser reads it behind the type byte. -/
theorem track_list_parses (h : l.WellFormed) :
    (if l.form = 2 then readTracks none false packetType maxMultitrackSubtracks l.bytes
      else
        match FourCc.read l.bytes with
        | none => none
        | some (cc, rest) =>
          readTracks (some cc) (l.form == 0) packetType maxMultitrackSubtracks rest) =
      some (l.tracks.map (trackSlice packetType)) := by
  cases l with
  | oneTrack cc trackId body => rfl
  | manyTracks cc ts =>
    have hlisted : ListedTracks (some cc) maxMultitrackSubtracks (ts.map (fun t => (cc, t))) := by
      refine ⟨h.some, h.cap, h.sizes Nat.one_ne_zero, ?_⟩
      intro c hc t ht
      obtain ⟨u, -, rfl⟩ := List.mem_map.mp ht
      exact Option.some.inj hc
    have hbytes : ts.flatMap (fun t => TrackList.sized t.1 t.2) =
        (ts.map (fun t => (cc, t))).flatMap (trackBytes (some cc)) := by
      rw [List.flatMap_map]
      rfl
    rw [TrackList.form, if_neg (by decide), TrackList.bytes, fourcc_read_bytes, hbytes]
    exact read_tracks_complete hlisted
  | manyTracksManyCodecs ts =>
    rw [TrackList.form, if_pos rfl]
    exact read_tracks_complete ⟨h.some, h.cap, h.sizes (Nat.succ_ne_zero 1), by simp⟩

theorem track_list_of_parse {form : Nat} {rest : List UInt8} {tracks : List MediaTrackSlice}
    (hform : form ≤ 2)
    (h : (if form = 2 then readTracks none false packetType maxMultitrackSubtracks rest
      else
        match FourCc.read rest with
        | none => none
        | some (cc, rest) =>
          readTracks (some cc) (form == 0) packetType maxMultitrackSubtracks rest) =
      some tracks) :
    ∃ l : TrackList, l.WellFormed ∧ l.form = form ∧ rest = l.bytes := by
  split at h
  · rename_i htwo
    obtain ⟨ts, hts, hrest, -⟩ := read_tracks_sound h
    exact ⟨.manyTracksManyCodecs ts, ⟨hts.some, hts.cap, fun _ => hts.sizes⟩, htwo.symm, hrest⟩
  · rename_i htwo
    split at h
    · cases h
    · rename_i cc more hread
      have hbytes := fourcc_bytes_read hread
      rcases form with _ | form
      · cases more with
        | nil => cases h
        | cons trackId body =>
          exact ⟨.oneTrack cc trackId body,
            ⟨by simp [TrackList.tracks], by simp [TrackList.tracks, maxMultitrackSubtracks],
              fun hne => absurd rfl hne⟩, rfl, hbytes⟩
      · obtain ⟨ts, hts, hmore, -⟩ := read_tracks_sound h
        -- all tracks have the shared code, which stands in front of them once
        have hsame : (ts.map Prod.snd).map (fun t => (cc, t)) = ts := by
          rw [List.map_map]
          refine (List.map_congr_left fun t ht => ?_).trans (List.map_id ts)
          exact Prod.ext (hts.codes cc rfl t ht).symm rfl
        refine ⟨.manyTracks cc (ts.map Prod.snd), ⟨?_, ?_, ?_⟩, ?_, ?_⟩
        · rw [TrackList.tracks, hsame]
          exact hts.some
        · rw [TrackList.tracks, hsame]
          exact hts.cap
        · rw [TrackList.tracks, hsame]
          exact fun _ => hts.sizes
        · show 1 = form + 1
          omega
        · rw [hbytes, hmore, TrackList.bytes, List.flatMap_map]
          rfl

theorem form_le (l : TrackList) : l.form ≤ 2 := by
  cases l <;> simp [TrackList.form]

theorem bytes_ne_nil (h : l.WellFormed) : l.bytes ≠ [] := by
  cases l with
  | oneTrack cc trackId body => exact List.cons_ne_nil _ _
  | manyTracks cc ts => exact List.cons_ne_nil _ _
  | manyTracksManyCodecs ts =>
    cases ts with
    | nil => exact absurd rfl h.some
    | cons t ts => exact List.cons_ne_nil _ _

theorem container_parses (h : ContainerOf frameType payload b0 packetType l) :
    multitrackTracks frameType payload = some (l.tracks.map (trackSlice packetType)) := by
  have hform := form_le l
  rw [h.bytes, containerBytes, multitrackTracks, if_neg (by
    simpa using (multitrack_header _).mpr h.header)]
  rw [high_of_nibbles (by omega) h.inner, low_of_nibbles h.inner,
    if_neg (by simp [bytes_ne_nil h.tracks]; omega)]
  exact track_list_parses h.tracks

theorem container_of_parse (h : multitrackTracks frameType payload = some tracks) :
    ∃ b0 packetType l, ContainerOf frameType payload b0 packetType l := by
  match payload with
  | [] => cases h
  | [_] =>
    unfold multitrackTracks at h
    split at h <;> cases h
  | b0 :: kind :: rest =>
    rw [multitrackTracks] at h
    split at h
    · cases h
    · rename_i hmulti
      split at h
      · cases h
      · rename_i hform
        rw [not_or, Nat.not_lt] at hform
        obtain ⟨l, hl, hl2, rfl⟩ := track_list_of_parse hform.2 h
        refine ⟨b0, lowNibble kind, l, ?_, low_nibble_lt kind, hl, ?_⟩
        · exact (multitrack_header _).mp (not_not.mp hmulti)
        · rw [containerBytes, hl2, of_nibbles_self]

theorem reencode_visited (h : l.WellFormed) :
    reencode b0 l.form (visitedTracks frameType b0 packetType l) =
      containerBytes b0 packetType l := by
  cases l with
  | oneTrack cc trackId body => rfl
  | manyTracks cc ts =>
    cases ts with
    | nil => exact absurd rfl h.some
    | cons t ts =>
      simp [reencode, visitedTracks, TrackList.tracks, containerBytes, TrackList.form,
        TrackList.bytes, List.flatMap_map]
  | manyTracksManyCodecs ts =>
    cases ts with
    | nil => exact absurd rfl h.some
    | cons t ts =>
      simp [reencode, visitedTracks, TrackList.tracks, containerBytes, TrackList.form,
        TrackList.bytes, List.flatMap_map]

/-- A payload that is a container is accepted, its tracks are visited in order, and they give the
payload back; any other payload is refused with no visit. -/
theorem foreach_track_exact {σ : Type} (frameType : FrameType) (payload : List UInt8)
    (visit : σ → VisitedTrack → σ) (s : σ) :
    (∀ b0 packetType l, ContainerOf frameType payload b0 packetType l →
      foreachTrack frameType payload visit s =
          (true, (visitedTracks frameType b0 packetType l).foldl visit s) ∧
        reencode b0 l.form (visitedTracks frameType b0 packetType l) = payload) ∧
    ((¬ ∃ b0 packetType l, ContainerOf frameType payload b0 packetType l) →
      foreachTrack frameType payload visit s = (false, s)) := by
  constructor
  · intro b0 packetType l h
    have hparses := container_parses h
    refine ⟨?_, ?_⟩
    · rw [h.bytes, containerBytes] at hparses ⊢
      rw [foreach_track_parses, hparses]
      simp only [List.map_map, visitedTracks]
      rfl
    · rw [h.bytes]
      exact reencode_visited h.tracks
  · intro h
    cases payload with
    | nil => rfl
    | cons b0 rest =>
      rw [foreach_track_parses]
      cases hparsed : multitrackTracks frameType (b0 :: rest) with
      | none => rfl
      | some tracks => exact absurd (container_of_parse hparsed) h

def twoTracks : TrackList :=
  .manyTracks ⟨97, 118, 99, 49⟩ [(0, [1, 2, 3]), (7, [])]

theorem two_tracks_visited :
    foreachTrack .video (containerBytes 0x96 1 twoTracks) (fun seen t => seen ++ [t.trackId]) [] =
      (true, [0, 7]) :=
  ((foreach_track_exact .video (containerBytes 0x96 1 twoTracks) _ []).1 0x96 1 twoTracks
    ⟨⟨by decide, by decide, by decide⟩, by decide,
      ⟨by decide, by decide, by decide⟩, rfl⟩).1

end Exact

end LibRtmp.Proofs
