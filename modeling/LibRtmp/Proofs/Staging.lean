import LibRtmp.Media.InitCache
import LibRtmp.Proofs.Asides
import LibRtmp.Proofs.Writing

namespace LibRtmp.Proofs

open WriteM

def frameBody (f : RelayFrame) (chunkSize : Nat) : List UInt8 :=
  bodyBytes (mediaChunkStream f.frameType).1 f.payload chunkSize (extendedTs f.timestamp)

theorem encode_body_spec (f : RelayFrame) (chunkSize : Nat) :
    AllOrNothing (encodeMediaBody f.frameType f.timestamp f.payload chunkSize)
      (frameBody f chunkSize) () :=
  write_chunk_body_spec (media_csid_valid f.frameType) f.payload chunkSize _

structure Sealed (m : StagedRelayMedia) (msg : StagedRelayMessage) : Prop where
  header : msg.headerEnd ≤ m.headers.peek.length
  body : ∃ b, m.bodies[msg.body]? = some b ∧ b.staged = true

structure Grows (m m' : StagedRelayMedia) : Prop where
  headers : ∃ d, m'.headers.peek = m.headers.peek ++ d
  bodies : ∀ (k : Nat) (b : StagedBody), m.bodies[k]? = some b → b.staged = true →
    ∃ b' : StagedBody, m'.bodies[k]? = some b' ∧ b'.staged = true ∧ b'.bytes = b.bytes

section Grows

variable {m m' m'' : StagedRelayMedia} {msg : StagedRelayMessage}

theorem Grows.same (hh : m'.headers = m.headers) (hb : m'.bodies = m.bodies) : Grows m m' :=
  ⟨⟨[], by rw [hh, List.append_nil]⟩, fun _ b hk hs => ⟨b, by rw [hb, hk], hs, rfl⟩⟩

theorem Grows.refl (m : StagedRelayMedia) : Grows m m := .same rfl rfl

theorem Grows.trans (h : Grows m m') (h' : Grows m' m'') : Grows m m'' := by
  obtain ⟨d, hd⟩ := h.headers
  obtain ⟨e, he⟩ := h'.headers
  refine ⟨⟨d ++ e, by rw [he, hd, List.append_assoc]⟩, fun k b hb hs => ?_⟩
  obtain ⟨b', hb', hs', heq⟩ := h.bodies k b hb hs
  obtain ⟨b'', hb'', hs'', heq'⟩ := h'.bodies k b' hb' hs'
  exact ⟨b'', hb'', hs'', heq'.trans heq⟩

theorem Sealed.grows (h : Sealed m msg) (hg : Grows m m') : Sealed m' msg := by
  obtain ⟨d, hd⟩ := hg.headers
  obtain ⟨b, hb, hs⟩ := h.body
  obtain ⟨b', hb', hs', -⟩ := hg.bodies _ b hb hs
  refine ⟨?_, b', hb', hs'⟩
  rw [hd, List.length_append]
  exact Nat.le_add_right_of_le h.header

theorem Sealed.parts_of (h : Sealed m msg) (hg : Grows m m') : m'.partsOf msg = m.partsOf msg := by
  obtain ⟨d, hd⟩ := hg.headers
  obtain ⟨b, hb, hs⟩ := h.body
  obtain ⟨b', hb', -, heq⟩ := hg.bodies _ b hb hs
  unfold StagedRelayMedia.partsOf
  rw [hd, List.take_append_of_le_length h.header, hb, hb', Option.map_some, Option.map_some, heq]

end Grows

/-- Every body is that of the frame and chunk size in its key, and staged parts stay readable. -/
structure Arena (batch : List RelayFrame) (m : StagedRelayMedia) : Prop where
  bodies : ∀ b ∈ m.bodies, ∃ f, batch[b.key.1]? = some f ∧ b.bytes.peek = frameBody f b.key.2
  spare : ∀ s ∈ m.spare, s.peek = []
  stored : ∃ view, m.messages.Stores view
  kept : ∀ i, ∀ msg ∈ m.messages.items i, Sealed m msg

section Arena

variable {batch : List RelayFrame} {m : StagedRelayMedia}

theorem position_some {bodies : List StagedBody} {key : Nat × Nat} {k : Nat}
    (h : StagedRelayMedia.position bodies key = some k) :
    ∃ b, bodies[k]? = some b ∧ b.key = key := by
  unfold StagedRelayMedia.position at h
  obtain ⟨i, hi, rfl⟩ := Option.map_eq_some_iff.mp h
  obtain ⟨hlt, hkey, -⟩ := List.findIdx?_eq_some_iff_getElem.mp hi
  rw [List.getElem_reverse, beq_iff_eq] at hkey
  exact ⟨_, List.getElem?_eq_getElem _, hkey⟩

/-- The body that is handed out is that of the frame, for this chunk size. -/
theorem body_for_spec (ha : Arena batch m) {frameIndex : Nat} {f : RelayFrame}
    (hf : batch[frameIndex]? = some f) (chunkSize : Nat) :
    Arena batch (m.bodyFor frameIndex f chunkSize).2 ∧
    Grows m (m.bodyFor frameIndex f chunkSize).2 ∧
    (m.bodyFor frameIndex f chunkSize).2.messages = m.messages ∧
    ∀ k, (m.bodyFor frameIndex f chunkSize).1 = some k →
      ∃ b, (m.bodyFor frameIndex f chunkSize).2.bodies[k]? = some b ∧
        b.bytes.peek = frameBody f chunkSize := by
  unfold StagedRelayMedia.bodyFor
  dsimp only
  cases hpos : StagedRelayMedia.position m.bodies (frameIndex, chunkSize) with
  | some i =>
    refine ⟨ha, .refl m, rfl, ?_⟩
    rintro k ⟨⟩
    obtain ⟨b, hb, hkey⟩ := position_some hpos
    obtain ⟨f', hf', hbytes⟩ := ha.bodies b (List.mem_of_getElem? hb)
    rw [hkey] at hf' hbytes
    rw [hf] at hf'
    cases hf'
    exact ⟨b, hb, hbytes⟩
  | none =>
    have hempty : (m.spare.getD .new).peek = [] := by
      cases hs : m.spare with
      | none => exact Buffer.peek_new
      | some s => exact ha.spare s hs
    have henc := encode_body_spec f chunkSize (m.spare.getD .new)
    dsimp only
    rw [hempty] at henc
    split at henc
    · obtain ⟨out, hout, hpeek⟩ := henc
      rw [hout]
      have hgrows : Grows m { m with
          spare := none
          bodies := m.bodies ++ [⟨(frameIndex, chunkSize), out, false⟩] } := by
        refine ⟨⟨[], (List.append_nil _).symm⟩, fun k b hb hs => ⟨b, ?_, hs, rfl⟩⟩
        rw [List.getElem?_append_left (List.getElem?_eq_some_iff.mp hb).1]
        exact hb
      refine ⟨⟨?_, by simp, ha.stored, fun i msg hm => (ha.kept i msg hm).grows hgrows⟩, hgrows,
        rfl, ?_⟩
      · intro b hb
        rcases List.mem_append.mp hb with hb | hb
        · exact ha.bodies b hb
        · cases List.mem_singleton.mp hb
          exact ⟨f, hf, hpeek⟩
      · rintro k ⟨⟩
        exact ⟨_, List.getElem?_concat_length, hpeek⟩
    · obtain ⟨out, hout, -⟩ := henc
      rw [hout]
      have hgrows : Grows m { m with spare := none } := .same rfl rfl
      exact ⟨⟨ha.bodies, by simp, ha.stored, fun i msg hm => (ha.kept i msg hm).grows hgrows⟩,
        hgrows, rfl, by simp⟩

/-- What is dropped from the end of the arena was not staged. -/
theorem release_unstaged_spec (bodies : List StagedBody) (spare : Option Buffer)
    (hs : ∀ s ∈ spare, s.peek = []) :
    ∃ dropped, bodies = dropped ++ (StagedRelayMedia.releaseUnstaged bodies spare).1 ∧
      (∀ b ∈ dropped, b.staged = false) ∧
      ∀ s ∈ (StagedRelayMedia.releaseUnstaged bodies spare).2, s.peek = [] := by
  induction bodies generalizing spare with
  | nil => exact ⟨[], rfl, by simp, hs⟩
  | cons b bodies ih =>
    unfold StagedRelayMedia.releaseUnstaged
    split
    · exact ⟨[], rfl, by simp, hs⟩
    · rename_i hb
      obtain ⟨dropped, heq, hdropped, hspare⟩ := ih (some b.bytes.reset) (by simp)
      refine ⟨b :: dropped, by rw [List.cons_append, ← heq], ?_, hspare⟩
      rintro c hc
      rcases List.mem_cons.mp hc with rfl | hc
      · exact Bool.eq_false_iff.mpr hb
      · exact hdropped c hc

theorem release_spec (ha : Arena batch m) :
    Arena batch m.releaseUnstagedBodies ∧ Grows m m.releaseUnstagedBodies ∧
      m.releaseUnstagedBodies.messages = m.messages := by
  obtain ⟨dropped, heq, hdropped, hspare⟩ := release_unstaged_spec m.bodies.reverse m.spare ha.spare
  unfold StagedRelayMedia.releaseUnstagedBodies
  generalize StagedRelayMedia.releaseUnstaged m.bodies.reverse m.spare = r at heq hspare
  obtain ⟨kept, spare⟩ := r
  have hbodies : m.bodies = kept.reverse ++ dropped.reverse := by
    rw [← List.reverse_append, ← heq, List.reverse_reverse]
  have hgrows : Grows m { m with bodies := kept.reverse, spare } := by
    refine ⟨⟨[], (List.append_nil _).symm⟩, fun k b hb hs => ⟨b, ?_, hs, rfl⟩⟩
    rw [hbodies, List.getElem?_append] at hb
    split at hb
    · exact hb
    · have hmem := List.mem_reverse.mp (List.mem_of_getElem? hb)
      rw [hdropped b hmem] at hs
      cases hs
  refine ⟨⟨fun b hb => ha.bodies b ?_, hspare, ha.stored, fun i msg hm => (ha.kept i msg hm).grows
    hgrows⟩, hgrows, rfl⟩
  rw [hbodies]
  exact List.mem_append_left _ hb

end Arena

/-- Each message is what `writeMediaMessage` appends, with the tracker the last one left. -/
inductive EncodesAll (c : Conn) (t : MediaHeaderTracker) :
    List RelayFrame → List UInt8 → MediaHeaderTracker → Prop where
  | nil : EncodesAll c t [] [] t
  | snoc {frames : List RelayFrame} {d : List UInt8} {t' : MediaHeaderTracker} {f : RelayFrame}
    {h : MediaFirstHeader} (hp : EncodesAll c t frames d t')
    (hc : t'.choose c.compactMediaHeaders f.frameType c.mediaStreamId f.timestamp
      f.payload.length = .ok h)
    (hw : AllOrNothing (writeMediaMessage t' c.compactMediaHeaders
      ⟨f.frameType, c.mediaStreamId, f.timestamp⟩ f.payload c.mediaChunkSize)
      (mediaBytes h f.timestamp f.payload c.mediaChunkSize) (t'.commit h)) :
    EncodesAll c t (frames ++ [f]) (d ++ mediaBytes h f.timestamp f.payload c.mediaChunkSize)
      (t'.commit h)

structure SameLine (c c' : Conn) : Prop where
  compact : c'.compactMediaHeaders = c.compactMediaHeaders
  stream : c'.mediaStreamId = c.mediaStreamId
  chunk : c'.mediaChunkSize = c.mediaChunkSize
  fd : c'.clientFd = c.clientFd
  transport : c'.transport = c.transport

theorem SameLine.refl (c : Conn) : SameLine c c := ⟨rfl, rfl, rfl, rfl, rfl⟩

theorem SameLine.trans {c d e : Conn} (h : SameLine c d) (h' : SameLine d e) : SameLine c e :=
  ⟨h'.compact.trans h.compact, h'.stream.trans h.stream, h'.chunk.trans h.chunk, h'.fd.trans h.fd,
    h'.transport.trans h.transport⟩

def StagedRelayMedia.due (m : StagedRelayMedia) (i : Nat) : List UInt8 := (m.parts i).flatten

/-- What is buffered and staged is what was there before, and then the delivered frames. -/
structure Line (c₀ c : Conn) (m : StagedRelayMedia) (i : Nat) (frames : List RelayFrame) :
    Prop where
  same : SameLine c₀ c
  text : ∃ d, EncodesAll c₀ c₀.mediaOutHeaders frames d c.mediaOutHeaders ∧
    c.sendBuffer.peek ++ StagedRelayMedia.due m i = c₀.sendBuffer.peek ++ d
  staged : m.messages.items i ≠ [] → c.canStageMedia = true

section Lines

variable {batch : List RelayFrame} {m m' : StagedRelayMedia} {c₀ c c' : Conn} {i : Nat}
  {frames : List RelayFrame}

theorem parts_grow (ha : Arena batch m) (hg : Grows m m')
    (hi : m'.messages.items i = m.messages.items i) : m'.parts i = m.parts i := by
  unfold StagedRelayMedia.parts
  rw [hi]
  exact List.flatMap_congr fun msg hm => (ha.kept i msg hm).parts_of hg

theorem Line.grows (h : Line c₀ c m i frames) (ha : Arena batch m) (hg : Grows m m')
    (hi : m'.messages.items i = m.messages.items i) : Line c₀ c m' i frames := by
  obtain ⟨d, hd, htext⟩ := h.text
  refine ⟨h.same, ⟨d, hd, ?_⟩, fun hne => h.staged (hi ▸ hne)⟩
  rw [← htext, StagedRelayMedia.due, StagedRelayMedia.due, parts_grow ha hg hi]

/-- A connection whose output was left alone. -/
theorem Line.left (h : Line c₀ c m i frames) (hs : SameLine c c')
    (hb : c'.sendBuffer = c.sendBuffer) (ht : c'.mediaOutHeaders = c.mediaOutHeaders) :
    Line c₀ c' m i frames := by
  refine ⟨h.same.trans hs, by rw [hb, ht]; exact h.text, fun hne => ?_⟩
  have hcan := h.staged hne
  rwa [Conn.canStageMedia, hb, hs.fd, hs.transport]

/-- One more frame was delivered: its header and body come last. -/
theorem Line.sends (h : Line c₀ c m i frames) {f : RelayFrame} {hd : MediaFirstHeader}
    (hs : SameLine c c') (hc : c.mediaOutHeaders.choose c.compactMediaHeaders f.frameType
      c.mediaStreamId f.timestamp f.payload.length = .ok hd)
    (ht : c'.mediaOutHeaders = c.mediaOutHeaders.commit hd)
    (htext : c'.sendBuffer.peek ++ StagedRelayMedia.due m' i =
      c.sendBuffer.peek ++ StagedRelayMedia.due m i ++
        (headerBytes hd ++ frameBody f c.mediaChunkSize))
    (hst : m'.messages.items i ≠ [] → c'.canStageMedia = true) :
    Line c₀ c' m' i (frames ++ [f]) := by
  obtain ⟨d, henc, hbefore⟩ := h.text
  rw [h.same.compact, h.same.stream] at hc
  have hch : Chosen _ ⟨f.frameType, c₀.mediaStreamId, f.timestamp⟩ _ hd := choose_cases hc
  have hbytes : headerBytes hd ++ frameBody f c.mediaChunkSize =
      mediaBytes hd f.timestamp f.payload c₀.mediaChunkSize := by
    rw [frameBody, h.same.chunk, ← hch.csid]
    rfl
  refine ⟨h.same.trans hs, ⟨_, ht ▸ henc.snoc hc (write_media_message_spec hc _), ?_⟩, hst⟩
  rw [htext, hbefore, hbytes, List.append_assoc]

end Lines

section Delivery

variable {batch : List RelayFrame} {m : StagedRelayMedia} {c₀ c : Conn} {i : Nat}
  {frames : List RelayFrame}

structure Delivers (batch : List RelayFrame) (i : Nat) (m m' : StagedRelayMedia) : Prop where
  arena : Arena batch m'
  grows : Grows m m'
  others : ∀ j, j ≠ i → m'.messages.items j = m.messages.items j

theorem items_push {α : Type} {t : Threads α} {view : Nat → List α} (h : t.Stores view)
    (o : Nat) (a : α) (j : Nat) :
    (t.push o a).items j = if j = o then t.items o ++ [a] else t.items j := by
  rw [(h.push o a).items, h.items, h.items, Function.update_apply]

theorem Delivers.refl (ha : Arena batch m) (i : Nat) : Delivers batch i m m :=
  ⟨ha, .refl m, fun _ _ => rfl⟩

theorem Delivers.trans {m' m'' : StagedRelayMedia} (h : Delivers batch i m m')
    (h' : Delivers batch i m' m'') : Delivers batch i m m'' :=
  ⟨h'.arena, h.grows.trans h'.grows, fun j hj => (h'.others j hj).trans (h.others j hj)⟩

/-- Staging a message: its header has just been appended, and its body is in the arena. -/
theorem stage_spec (ha : Arena batch m) {k : Nat} {b : StagedBody} (hb : m.bodies[k]? = some b)
    (i : Nat) {headers : Buffer} {d : List UInt8} (hh : headers.peek = m.headers.peek ++ d) :
    Delivers batch i m (m.stage i k d.length headers) ∧
      (m.stage i k d.length headers).messages.items i ≠ [] ∧
      StagedRelayMedia.due (m.stage i k d.length headers) i =
        StagedRelayMedia.due m i ++ (d ++ b.bytes.peek) := by
  obtain ⟨view, hview⟩ := ha.stored
  have hmodify (k' : Nat) : (m.stage i k d.length headers).bodies[k']? =
      (m.bodies[k']?).map (fun b => if k = k' then { b with staged := true } else b) := by
    rw [StagedRelayMedia.stage, List.getElem?_modify]
    cases m.bodies[k']? <;> rfl
  have hgrows : Grows m (m.stage i k d.length headers) := by
    refine ⟨⟨d, hh⟩, fun k' b' hb' hs => ?_⟩
    refine ⟨_, (hmodify k').trans (congrArg _ hb'), ?_, ?_⟩ <;> dsimp only <;> split
    · rfl
    · exact hs
    · rfl
    · rfl
  have hitems (j : Nat) : (m.stage i k d.length headers).messages.items j = if j = i then
      m.messages.items i ++ [⟨m.headers.available, m.headers.available + d.length, k⟩]
      else m.messages.items j := items_push hview i _ j
  have hown : (m.stage i k d.length headers).bodies[k]? = some { b with staged := true } := by
    rw [hmodify, hb, Option.map_some, if_pos rfl]
  have hsealed : Sealed (m.stage i k d.length headers)
      ⟨m.headers.available, m.headers.available + d.length, k⟩ := by
    refine ⟨?_, _, hown, rfl⟩
    change _ ≤ headers.peek.length
    rw [hh, List.length_append, Buffer.available_eq]
  refine ⟨⟨⟨?_, ha.spare, ⟨_, hview.push i _⟩, ?_⟩, hgrows, fun j hj => ?_⟩, ?_, ?_⟩
  · intro b' hb'
    obtain ⟨k', hk'⟩ := List.mem_iff_getElem?.mp hb'
    rw [hmodify] at hk'
    obtain ⟨b'', hb'', rfl⟩ := Option.map_eq_some_iff.mp hk'
    obtain ⟨f, hf, hbytes⟩ := ha.bodies b'' (List.mem_of_getElem? hb'')
    exact ⟨f, by split <;> exact hf, by split <;> exact hbytes⟩
  · intro j msg hm
    rw [hitems] at hm
    split at hm
    · rcases List.mem_append.mp hm with hm | hm
      · exact (ha.kept i msg hm).grows hgrows
      · cases List.mem_singleton.mp hm
        exact hsealed
    · exact (ha.kept j msg hm).grows hgrows
  · rw [hitems, if_neg hj]
  · rw [hitems, if_pos rfl]
    simp
  · have hold : (m.messages.items i).flatMap (m.stage i k d.length headers).partsOf =
        m.parts i := List.flatMap_congr fun msg hm => (ha.kept i msg hm).parts_of hgrows
    have hnew : ((m.stage i k d.length headers).partsOf
        ⟨m.headers.available, m.headers.available + d.length, k⟩).flatten = d ++ b.bytes.peek := by
      unfold StagedRelayMedia.partsOf
      rw [hown, Buffer.available_eq]
      change ((List.take _ headers.peek).drop _ :: _).flatten = _
      rw [hh, ← List.length_append, List.take_length, List.drop_left]
      simp
    rw [StagedRelayMedia.due, StagedRelayMedia.parts, hitems, if_pos rfl, List.flatMap_append, hold,
      List.flatten_append, StagedRelayMedia.due]
    simp only [List.flatMap_cons, List.flatMap_nil, List.append_nil]
    rw [hnew]

theorem Line.none_due (h : Line c₀ c m i frames) (hc : c.canStageMedia = false) :
    m.messages.items i = [] ∧ StagedRelayMedia.due m i = [] := by
  have hnil : m.messages.items i = [] := by
    by_contra hne
    rw [h.staged hne] at hc
    cases hc
  exact ⟨hnil, by rw [StagedRelayMedia.due, StagedRelayMedia.parts, hnil]; rfl⟩

/-- Staging a frame for a connection that takes it from the arena. -/
theorem stage_body_spec (ha : Arena batch m) {k : Nat} {b : StagedBody} (hb : m.bodies[k]? = some b)
    {f : RelayFrame} (hbytes : b.bytes.peek = frameBody f c.mediaChunkSize) (i : Nat) (n : Nat)
    (hcan : c.canStageMedia = true) :
    match c.stageEncodedMediaBody f.frameType f.timestamp f.payload.length n m.headers with
    | (.error _, _, headers) => Delivers batch i m { m with headers }
    | (.ok headerLen, c', headers) => Delivers batch i m (m.stage i k headerLen headers) ∧
        ∀ c₀ frames, Line c₀ c m i frames →
          Line c₀ c' (m.stage i k headerLen headers) i (frames ++ [f]) := by
  unfold Conn.stageEncodedMediaBody
  cases hc : c.mediaOutHeaders.choose c.compactMediaHeaders f.frameType c.mediaStreamId f.timestamp
      f.payload.length with
  | error e => exact Delivers.refl ha i
  | ok hd =>
    have hch : Chosen _ ⟨f.frameType, c.mediaStreamId, f.timestamp⟩ _ hd := choose_cases hc
    have hwrite := header_reserved hch m.headers
    dsimp only
    split at hwrite
    · obtain ⟨headers, hrun, hpeek⟩ := hwrite
      obtain ⟨hdel, hne, hdue⟩ := stage_spec ha hb i hpeek
      rw [hrun, ← header_length hch]
      refine ⟨hdel, fun c₀ frames hline => ?_⟩
      refine hline.sends ⟨rfl, rfl, rfl, rfl, rfl⟩ hc rfl ?_ fun _ => hcan
      rw [hdue, hbytes, List.append_assoc]
    · obtain ⟨headers, hrun, hpeek⟩ := hwrite
      rw [hrun]
      have hgrows : Grows m { m with headers } :=
        ⟨⟨[], hpeek.trans (List.append_nil _).symm⟩, fun _ b hb hs => ⟨b, hb, hs, rfl⟩⟩
      exact ⟨⟨ha.bodies, ha.spare, ha.stored, fun i msg hm => (ha.kept i msg hm).grows hgrows⟩,
        hgrows, fun _ _ => rfl⟩

/-- Buffering a frame for a connection that has nothing staged. -/
theorem send_body_spec {f : RelayFrame} (hcan : c.canStageMedia = false) {c' : Conn}
    (hsend : c.sendEncodedMediaBody f.frameType f.timestamp f.payload.length
      (frameBody f c.mediaChunkSize) = (.ok (), c')) (hline : Line c₀ c m i frames) :
    Line c₀ c' m i (frames ++ [f]) := by
  obtain ⟨hnil, hdue⟩ := hline.none_due hcan
  unfold Conn.sendEncodedMediaBody at hsend
  cases hc : c.mediaOutHeaders.choose c.compactMediaHeaders f.frameType c.mediaStreamId f.timestamp
      f.payload.length with
  | error e =>
    rw [writeMediaMessageWithBody, hc] at hsend
    cases hsend
  | ok hd =>
    have hspec : AllOrNothing (writeMediaMessageWithBody c.mediaOutHeaders c.compactMediaHeaders
        ⟨f.frameType, c.mediaStreamId, f.timestamp⟩ _ (frameBody f c.mediaChunkSize)) _ _ :=
      write_with_body_spec hc _
    have hwrite := hspec c.sendBuffer
    split at hwrite
    · obtain ⟨out, hrun, hpeek⟩ := hwrite
      rw [hrun] at hsend
      cases hsend
      refine hline.sends ⟨rfl, rfl, rfl, rfl, rfl⟩ hc rfl ?_ fun hne => absurd hnil hne
      rw [hdue, List.append_nil, List.append_nil]
      exact hpeek
    · obtain ⟨out, hrun, -⟩ := hwrite
      rw [hrun] at hsend
      cases hsend

/-- A delivery extends the line of one connection. -/
theorem deliver_spec (ha : Arena batch m) {frameIndex : Nat} {f : RelayFrame}
    (hf : batch[frameIndex]? = some f) (i : Nat) (c : Conn) :
    Delivers batch i m (deliverFrame i c frameIndex f m).2.2 ∧
    ((deliverFrame i c frameIndex f m).1 = .ok () → ∀ c₀ frames, Line c₀ c m i frames →
      Line c₀ (deliverFrame i c frameIndex f m).2.1 (deliverFrame i c frameIndex f m).2.2 i
        (frames ++ [f])) := by
  obtain ⟨ha', hgrows, hmsgs, hbody⟩ := body_for_spec ha hf c.mediaChunkSize
  unfold deliverFrame
  generalize m.bodyFor frameIndex f c.mediaChunkSize = r at ha' hgrows hmsgs hbody
  obtain ⟨k, m'⟩ := r
  dsimp only at ha' hgrows hmsgs hbody
  have hdel : Delivers batch i m m' := ⟨ha', hgrows, fun j _ => by rw [hmsgs]⟩
  cases k with
  | none => exact ⟨hdel, nofun⟩
  | some k =>
    obtain ⟨b, hb, hbytes⟩ := hbody k rfl
    dsimp only
    rw [hb, Option.map_some, Option.getD_some]
    split
    · rename_i hcan
      have hstage := stage_body_spec ha' hb hbytes i b.bytes.peek.length hcan
      generalize c.stageEncodedMediaBody f.frameType f.timestamp f.payload.length
        b.bytes.peek.length m'.headers = r at hstage
      obtain ⟨r, c', headers⟩ := r
      cases r with
      | error e => exact ⟨hdel.trans hstage, nofun⟩
      | ok headerLen =>
        refine ⟨hdel.trans hstage.1, fun _ c₀ frames hline => hstage.2 c₀ frames ?_⟩
        exact hline.grows ha hgrows (by rw [hmsgs])
    · rename_i hcan
      rw [hbytes]
      refine ⟨hdel, fun hok c₀ frames hline => ?_⟩
      exact send_body_spec (Bool.eq_false_iff.mpr hcan) (Prod.ext hok rfl)
        (hline.grows ha hgrows (by rw [hmsgs]))

end Delivery

def deliveredTo (i : Nat) (reports : List (Nat × RelayFrame × PlayerOutcome)) : List RelayFrame :=
  (reports.filter (fun r => r.1 == i && r.2.2 == .delivered)).map (fun r => r.2.1)

/-- A fan-out under way: every connection that is still there has its line of output. -/
structure Carried (start : List Conn) (batch : List RelayFrame) (f : Fanout) : Prop where
  arena : Arena batch f.staged
  rows : ∀ (i : Nat) (c : Conn), f.connections[i]? = some c → c.transport ≠ none →
    ∃ c₀, start[i]? = some c₀ ∧ Line c₀ c f.staged i (deliveredTo i f.reports)

section Fanouts

variable {start : List Conn} {batch : List RelayFrame} {limits : PlayerFlowLimits} {now : Nat}
  {delivery : FrameDelivery} {frameIndex : Nat} {frame : RelayFrame}

theorem delivered_to_snoc (i j : Nat) (reports : List (Nat × RelayFrame × PlayerOutcome))
    (frame : RelayFrame) (outcome : PlayerOutcome) :
    deliveredTo j (reports ++ [(i, frame, outcome)]) =
      deliveredTo j reports ++ if i = j ∧ outcome = .delivered then [frame] else [] := by
  unfold deliveredTo
  rw [List.filter_append, List.map_append]
  congr 1
  by_cases h : i = j ∧ outcome = .delivered
  · simp [h]
  · rw [if_neg h, List.filter_cons_of_neg, List.filter_nil, List.map_nil]
    simpa using h

/-- Flow control does not touch the output. -/
theorem flow_decision_line (limits : PlayerFlowLimits) (c : Conn) (hint : DeliveryHint)
    (backlog now : Nat) :
    SameLine c (playerFlowDecision limits c hint backlog now).2 ∧
      (playerFlowDecision limits c hint backlog now).2.sendBuffer = c.sendBuffer ∧
      (playerFlowDecision limits c hint backlog now).2.mediaOutHeaders = c.mediaOutHeaders := by
  unfold playerFlowDecision
  split
  · exact ⟨.refl c, rfl, rfl⟩
  split
  · exact ⟨.refl c, rfl, rfl⟩
  split
  · split
    · exact ⟨.refl c, rfl, rfl⟩
    · exact ⟨⟨rfl, rfl, rfl, rfl, rfl⟩, rfl, rfl⟩
  · split
    · exact ⟨⟨rfl, rfl, rfl, rfl, rfl⟩, rfl, rfl⟩
    split
    · exact ⟨⟨rfl, rfl, rfl, rfl, rfl⟩, rfl, rfl⟩
    split <;> exact ⟨.refl c, rfl, rfl⟩

structure Serves (batch : List RelayFrame) (i : Nat) (c : Conn) (frame : RelayFrame)
    (m : StagedRelayMedia) (r : PlayerOutcome × Conn × StagedRelayMedia) : Prop where
  media : Delivers batch i m r.2.2
  line : r.2.1.transport ≠ none → ∀ c₀ frames, Line c₀ c m i frames →
    Line c₀ r.2.1 r.2.2 i (frames ++ if r.1 = .delivered then [frame] else [])

/-- A frame for one player extends its line, or is skipped. -/
theorem relay_to_player_spec {m : StagedRelayMedia} (ha : Arena batch m)
    (hf : batch[frameIndex]? = some frame) (i : Nat) (c : Conn) :
    Serves batch i c frame m (relayFrameToPlayer limits now delivery i c frameIndex frame m) := by
  obtain ⟨hsame, hbuf, htracker⟩ := flow_decision_line limits c (delivery.forPlayer c)
    (c.sendBuffer.available + c.stagedMediaBytes) now
  unfold relayFrameToPlayer
  dsimp only
  generalize playerFlowDecision limits c (delivery.forPlayer c)
    (c.sendBuffer.available + c.stagedMediaBytes) now = r at hsame hbuf htracker
  obtain ⟨flow, c'⟩ := r
  dsimp only at hsame hbuf htracker
  cases flow with
  | skip =>
    have hsame' : SameLine c { c' with relayFramesDropped := satAdd c'.relayFramesDropped 1 } :=
      hsame.trans ⟨rfl, rfl, rfl, rfl, rfl⟩
    refine ⟨.refl ha i, fun _ c₀ frames hline => ?_⟩
    dsimp only
    rw [if_neg (by decide), List.append_nil]
    exact hline.left hsame' hbuf htracker
  | disconnect => exact ⟨.refl ha i, fun hgone => absurd rfl hgone⟩
  | send =>
    obtain ⟨hdel, hline'⟩ := deliver_spec ha hf i c'
    dsimp only
    generalize deliverFrame i c' frameIndex frame m = r at hdel hline'
    obtain ⟨result, c'', m'⟩ := r
    cases result with
    | error e => exact ⟨hdel, fun hgone => absurd rfl hgone⟩
    | ok u =>
      refine ⟨hdel, fun _ c₀ frames hline => ?_⟩
      rw [if_pos rfl]
      exact hline' rfl c₀ frames (hline.left hsame hbuf htracker)

/-- One offer of a frame keeps every line. -/
theorem Carried.offer {f : Fanout} (h : Carried start batch f)
    (hf : batch[frameIndex]? = some frame) (i : Nat) :
    Carried start batch (f.offer limits now delivery frameIndex frame i) := by
  unfold Fanout.offer
  cases hi : f.connections[i]? with
  | none => exact h
  | some c =>
    have hoffer : Serves batch i c frame f.staged
        (relayFrameToPlayer limits now delivery i c frameIndex frame f.staged) :=
      relay_to_player_spec h.arena hf i c
    have hgone := (relay_to_player_aside limits now delivery i c frameIndex frame f.staged).gone
    dsimp only
    generalize relayFrameToPlayer limits now delivery i c frameIndex frame f.staged = r
      at hoffer hgone
    obtain ⟨outcome, c', m'⟩ := r
    refine ⟨hoffer.media.arena, fun j d hj hthere => ?_⟩
    dsimp only at hj ⊢
    rw [delivered_to_snoc]
    rw [List.getElem?_set] at hj
    split at hj
    · rename_i hij
      subst hij
      rw [if_pos (List.getElem?_eq_some_iff.mp hi).1] at hj
      cases hj
      obtain ⟨c₀, hc₀, hrow⟩ := h.rows i c hi fun hc => hthere (hgone hc)
      refine ⟨c₀, hc₀, ?_⟩
      simpa using hoffer.line hthere c₀ _ hrow
    · rename_i hij
      obtain ⟨c₀, hc₀, hrow⟩ := h.rows j d hj hthere
      refine ⟨c₀, hc₀, ?_⟩
      rw [if_neg fun hd => hij hd.1, List.append_nil]
      exact hrow.grows h.arena hoffer.media.grows (hoffer.media.others j fun hji => hij hji.symm)

theorem Carried.handed {f : Fanout} (h : Carried start batch f)
    (hf : batch[frameIndex]? = some frame) (players : List Nat) :
    Carried start batch (f.frame limits now delivery frameIndex frame players) := by
  have hfold : Carried start batch
      (players.foldl (Fanout.offer limits now delivery frameIndex frame) f) := by
    induction players generalizing f with
    | nil => exact h
    | cons i players ih => exact ih (h.offer hf i)
  obtain ⟨harena, hgrows, hmsgs⟩ := release_spec hfold.arena
  refine ⟨harena, fun i c hi hthere => ?_⟩
  obtain ⟨c₀, hc₀, hrow⟩ := hfold.rows i c hi hthere
  exact ⟨c₀, hc₀, hrow.grows hfold.arena hgrows (congrArg (fun t => t.items i) hmsgs)⟩

/-- Nothing has been relayed yet. -/
theorem carried_start (start : List Conn) (batch : List RelayFrame) (closed : List Nat) :
    Carried start batch { connections := start, closed } := by
  have hitems (i : Nat) : ({} : StagedRelayMedia).messages.items i = [] :=
    Threads.stores_empty.items i
  refine ⟨⟨by simp, by simp, ⟨_, Threads.stores_empty⟩, ?_⟩,
    fun i c hi _ => ⟨c, hi, .refl c, ?_, ?_⟩⟩
  · intro i msg hm
    rw [hitems] at hm
    cases hm
  · refine ⟨[], .nil, ?_⟩
    rw [StagedRelayMedia.due, StagedRelayMedia.parts, hitems]
    rfl
  · exact fun hne => absurd (hitems i) hne

/-- The frame at the relay's index is the next one of the batch. -/
theorem Carried.run (cfg : CacheConfig) (settings : ServerSettings) (now : Nat)
    (abandoned : List Abandoned) {frames : List RelayFrame} {r : Relaying}
    (h : Carried start batch r.fanout) (hnext : batch.drop r.frameIndex = frames) :
    Carried start batch (Relaying.run cfg settings now abandoned frames r).1.fanout := by
  induction frames generalizing r with
  | nil => exact h
  | cons frame frames ih =>
    unfold Relaying.run
    dsimp only
    split
    · exact h
    · have hf : batch[r.frameIndex]? = some frame := by
        rw [← List.head?_drop, hnext, List.head?_cons]
      refine ih (h.handed hf _) ?_
      change batch.drop (r.frameIndex + 1) = frames
      rw [← List.drop_drop, hnext, List.drop_one, List.tail_cons]

theorem delivered_by_offer (f : Fanout) (i j : Nat) :
    (deliveredTo j (f.offer limits now delivery frameIndex frame i).reports).Sublist
      (deliveredTo j f.reports ++ if i = j then [frame] else []) := by
  unfold Fanout.offer
  split
  · exact List.sublist_append_left _ _
  · dsimp only
    rw [delivered_to_snoc]
    refine List.Sublist.append_left ?_ _
    by_cases hij : i = j
    · rw [if_pos hij]
      split
      · exact .refl _
      · exact List.nil_sublist _
    · rw [if_neg hij, if_neg fun h => hij h.1]

/-- A frame is delivered to a player at most once. -/
theorem delivered_by_frame (f : Fanout) {players : List Nat} (hp : players.Nodup) (j : Nat) :
    (deliveredTo j (f.frame limits now delivery frameIndex frame players).reports).Sublist
      (deliveredTo j f.reports ++ if j ∈ players then [frame] else []) := by
  change (deliveredTo j (players.foldl _ f).reports).Sublist _
  induction players generalizing f with
  | nil => exact List.sublist_append_left _ _
  | cons i players ih =>
    obtain ⟨hi, hp⟩ := List.nodup_cons.mp hp
    refine (ih (f.offer limits now delivery frameIndex frame i) hp).trans ?_
    refine ((delivered_by_offer f i j).append_right _).trans ?_
    rw [List.append_assoc]
    refine List.Sublist.append_left ?_ _
    by_cases hij : i = j
    · subst hij
      simp [hi]
    · simp [hij, Ne.symm hij]

/-- Frames are delivered in the order of the batch. -/
theorem delivered_in_order (cfg : CacheConfig) (settings : ServerSettings) (now : Nat)
    (abandoned : List Abandoned) (frames : List RelayFrame) (r : Relaying) (j : Nat) :
    (deliveredTo j (Relaying.run cfg settings now abandoned frames r).1.fanout.reports).Sublist
      (deliveredTo j r.fanout.reports ++ frames) := by
  induction frames generalizing r with
  | nil => exact List.sublist_append_left _ _
  | cons frame frames ih =>
    unfold Relaying.run
    dsimp only
    split
    · exact List.sublist_append_left _ _
    · refine (ih _).trans ?_
      rw [← List.singleton_append, ← List.append_assoc]
      refine List.Sublist.append_right ?_ _
      have hnodup : (relayPlayers cfg.codec r.fanout.connections frame).Nodup :=
        List.Nodup.filter _ List.nodup_range
      refine (delivered_by_frame r.fanout hnodup j).trans (List.Sublist.append_left ?_ _)
      split
      · exact .refl _
      · exact List.nil_sublist _

end Fanouts

section Sending

def Within (parts : List (List UInt8)) (offset : Nat) : Prop :=
  ∀ part ∈ parts.head?, offset ≤ part.length

theorem advance_spec {parts : List (List UInt8)} {offset : Nat} (h : Within parts offset)
    (sent : Nat) :
    Within (advanceParts parts offset sent).1 (advanceParts parts offset sent).2 ∧
      (advanceParts parts offset sent).1.flatten.drop (advanceParts parts offset sent).2 =
        (parts.flatten.drop offset).drop sent := by
  induction parts generalizing offset sent with
  | nil => exact ⟨h, by simp [advanceParts]⟩
  | cons part parts ih =>
    have hoff : offset ≤ part.length := h part rfl
    unfold advanceParts
    split
    · rename_i hsent
      exact ⟨h, by rw [hsent, List.drop_zero]⟩
    · split
      · refine ⟨?_, (List.drop_drop ..).symm⟩
        rintro _ ⟨⟩
        omega
      · have hstart : Within parts 0 := fun _ _ => Nat.zero_le _
        obtain ⟨hwithin, hrest⟩ := ih hstart (sent - (part.length - offset))
        refine ⟨hwithin, ?_⟩
        have hpast : part.drop (offset + sent) = [] := List.drop_eq_nil_of_le (by omega)
        rw [hrest, List.drop_zero, List.flatten_cons, List.drop_drop, List.drop_append, hpast,
          List.nil_append]
        congr 1
        omega

/-- What the socket took and what is left make up what was offered. -/
theorem send_parts_spec (socket : Socket) {parts : List (List UInt8)} {offset : Nat}
    (h : Within parts offset) :
    match sendParts socket parts offset with
    | (_, taken, rest, next) =>
      Within rest next ∧ taken ++ rest.flatten.drop next = parts.flatten.drop offset := by
  induction socket generalizing parts offset with
  | nil => cases parts <;> exact ⟨h, rfl⟩
  | cons answer socket ih =>
    cases parts with
    | nil => exact ⟨h, rfl⟩
    | cons part parts =>
      cases answer with
      | error e => exact ⟨h, rfl⟩
      | ok n =>
        unfold sendParts
        dsimp only
        split
        · exact ⟨h, rfl⟩
        · generalize min n ((part :: parts).flatten.drop offset).length = sent
          obtain ⟨hwithin, hrest⟩ := advance_spec h sent
          have hlater := ih hwithin
          dsimp only
          generalize advanceParts (part :: parts) offset sent = left at hrest hlater
          generalize sendParts socket left.1 left.2 = r at hlater
          obtain ⟨result, taken, rest, next⟩ := r
          refine ⟨hlater.1, ?_⟩
          dsimp only at hlater ⊢
          rw [List.append_assoc, hlater.2, hrest, List.take_append_drop]

theorem write_parts_appends (parts : List (List UInt8)) :
    Appends (writeParts parts) parts.flatten () := by
  induction parts with
  | nil => exact appends_pure ()
  | cons part parts ih => exact (appends_write part).bind ih

/-- A player that is sent its staged messages gets each byte once. -/
theorem send_staged_spec (c : Conn) (socket : Socket) (parts : List (List UInt8)) :
    match c.sendStagedMedia socket parts with
    | (.ok _, c', taken) => ∃ rest, c'.sendBuffer.peek = c.sendBuffer.peek ++ rest ∧
        taken ++ rest = parts.flatten
    | (.error _, _, _) => True := by
  have hstart : Within parts 0 := fun _ _ => Nat.zero_le _
  unfold Conn.sendStagedMedia
  dsimp only
  generalize (if c.transport.isSome = true then socket else []) = socket
  have hparts := send_parts_spec socket hstart
  generalize sendParts socket parts 0 = r at hparts
  obtain ⟨result, taken, rest, next⟩ := r
  obtain ⟨hwithin, htaken⟩ := hparts
  rw [List.drop_zero] at htaken
  cases result with
  | error e => trivial
  | ok u =>
    cases rest with
    | nil => exact ⟨[], (List.append_nil _).symm, by simpa using htaken⟩
    | cons part rest =>
      have hle : next ≤ part.length := hwithin part rfl
      have hwrite := (write_parts_appends (part.drop next :: rest)).reserved c.sendBuffer
      dsimp only
      split at hwrite
      · obtain ⟨out, hrun, hpeek⟩ := hwrite
        rw [hrun]
        refine ⟨_, hpeek, ?_⟩
        rw [← htaken, List.flatten_cons, List.flatten_cons, List.drop_append_of_le_length hle]
      · obtain ⟨out, hrun, -⟩ := hwrite
        rw [hrun]
        trivial

def takenBy (i : Nat) (taken : List (Nat × List UInt8)) : List UInt8 :=
  (taken.filter (fun t => t.1 == i)).flatMap (fun t => t.2)

theorem taken_by_snoc (i j : Nat) (taken : List (Nat × List UInt8)) (bytes : List UInt8) :
    takenBy j (taken ++ [(i, bytes)]) = takenBy j taken ++ if i = j then bytes else [] := by
  unfold takenBy
  rw [List.filter_append, List.flatMap_append]
  by_cases h : i = j <;> simp [h]

/-- Some connections have been sent what was staged for them, the others nothing. -/
def SentTo (m : StagedRelayMedia) (before : List Conn) (owners : List Nat)
    (s : List Conn × List Nat × List (Nat × List UInt8)) : Prop :=
  ∀ (i : Nat) (c' : Conn), s.1[i]? = some c' → c'.transport ≠ none →
    ∃ c, before[i]? = some c ∧ c.transport ≠ none ∧ ∃ rest,
      c'.sendBuffer.peek = c.sendBuffer.peek ++ rest ∧
      takenBy i s.2.2 ++ rest = if i ∈ owners then StagedRelayMedia.due m i else []

variable {m : StagedRelayMedia} {before : List Conn} {sockets : Nat → Socket}

/-- Another connection's turn: only its own row changes. -/
theorem SentTo.turn {owners : List Nat} {s s' : List Conn × List Nat × List (Nat × List UInt8)}
    {i : Nat} (h : SentTo m before owners s) (hrows : ∀ j, j ≠ i → s'.1[j]? = s.1[j]?)
    (htaken : ∀ j, j ≠ i → takenBy j s'.2.2 = takenBy j s.2.2)
    (hown : ∀ c', s'.1[i]? = some c' → c'.transport ≠ none →
      ∃ c, before[i]? = some c ∧ c.transport ≠ none ∧ ∃ rest,
        c'.sendBuffer.peek = c.sendBuffer.peek ++ rest ∧
        takenBy i s'.2.2 ++ rest = StagedRelayMedia.due m i) :
    SentTo m before (owners ++ [i]) s' := by
  intro j c' hc' hthere
  by_cases hj : j = i
  · subst hj
    simpa using hown c' hc' hthere
  · rw [hrows j hj] at hc'
    simpa [hj, htaken j hj] using h j c' hc' hthere

/-- The next connection is sent what was staged for it. -/
theorem SentTo.next {owners : List Nat} {s : List Conn × List Nat × List (Nat × List UInt8)}
    (h : SentTo m before owners s) {i : Nat} (hi : i ∉ owners) :
    SentTo m before (owners ++ [i]) (m.sendTo sockets s i) := by
  obtain ⟨connections, closed, taken⟩ := s
  unfold StagedRelayMedia.sendTo
  dsimp only
  cases hc : connections[i]? with
  | none =>
    refine h.turn (fun _ _ => rfl) (fun _ _ => rfl) fun c' hc' => ?_
    rw [show connections[i]? = some c' from hc'] at hc
    cases hc
  | some c =>
    dsimp only
    have hlt : i < connections.length := (List.getElem?_eq_some_iff.mp hc).1
    split
    · rename_i hgone
      refine h.turn (fun _ _ => rfl) (fun _ _ => rfl) fun c' hc' hthere => ?_
      rw [show connections[i]? = some c' from hc'] at hc
      cases hc
      exact absurd (Option.isNone_iff_eq_none.mp hgone) hthere
    · rename_i hthere
      obtain ⟨c₀, hc₀, hthere₀, rest₀, hbuf₀, hnone⟩ :=
        h i c hc fun hn => hthere (Option.isNone_iff_eq_none.mpr hn)
      rw [if_neg hi, List.append_eq_nil_iff] at hnone
      obtain ⟨htaken₀, rfl⟩ := hnone
      have hsend := send_staged_spec c (sockets i) (m.parts i)
      generalize c.sendStagedMedia (sockets i) (m.parts i) = r at hsend
      obtain ⟨result, d, bytes⟩ := r
      have hrows (e : Conn) (j : Nat) (hj : j ≠ i) : (connections.set i e)[j]? = connections[j]? :=
        List.getElem?_set_ne (Ne.symm hj)
      have htaken (j : Nat) (hj : j ≠ i) : takenBy j (taken ++ [(i, bytes)]) = takenBy j taken := by
        rw [taken_by_snoc, if_neg (Ne.symm hj), List.append_nil]
      have hrow (e : Conn) : (connections.set i e)[i]? = some e := List.getElem?_set_self hlt
      cases result with
      | error e =>
        refine h.turn (hrows _) htaken fun c' hc' hthere' => ?_
        cases (hrow _).symm.trans hc'
        exact absurd rfl hthere'
      | ok u =>
        obtain ⟨rest, hbuf, hall⟩ := hsend
        refine h.turn (hrows _) htaken fun c' hc' _ => ?_
        cases (hrow d).symm.trans hc'
        refine ⟨c₀, hc₀, hthere₀, rest, by rw [hbuf, hbuf₀, List.append_nil], ?_⟩
        rw [taken_by_snoc, if_pos rfl, htaken₀, List.nil_append, hall, StagedRelayMedia.due]

theorem sent_to_owners (owners done : List Nat)
    (s : List Conn × List Nat × List (Nat × List UInt8)) (h : SentTo m before done s)
    (hnd : (done ++ owners).Nodup) :
    SentTo m before (done ++ owners) (owners.foldl (m.sendTo sockets) s) := by
  induction owners generalizing done s with
  | nil => rwa [List.append_nil]
  | cons i owners ih =>
    rw [List.append_cons] at hnd ⊢
    have hi : i ∉ done := fun hm =>
      (List.nodup_append.mp (List.nodup_append.mp hnd).1).2.2 i hm i List.mem_cons_self rfl
    exact ih (done ++ [i]) _ (h.next hi) hnd

theorem sent_to_all {batch : List RelayFrame} (ha : Arena batch m) (closed : List Nat) :
    SentTo m before m.messages.owners (m.send sockets before closed) := by
  obtain ⟨view, hview⟩ := ha.stored
  have hstart : SentTo m before [] (before, closed, []) := fun i c hc hthere =>
    ⟨c, hc, hthere, [], (List.append_nil _).symm, rfl⟩
  exact sent_to_owners m.messages.owners [] _ hstart hview.once

/-- A connection that has staged messages and is sent them. -/
theorem Line.sent {batch : List RelayFrame} {c₀ c c' : Conn} {i : Nat} {frames : List RelayFrame}
    {taken rest : List UInt8} (h : Line c₀ c m i frames) (ha : Arena batch m)
    (hbuf : c'.sendBuffer.peek = c.sendBuffer.peek ++ rest)
    (htaken : taken ++ rest = if i ∈ m.messages.owners then StagedRelayMedia.due m i else []) :
    ∃ d, EncodesAll c₀ c₀.mediaOutHeaders frames d c.mediaOutHeaders ∧
      taken ++ c'.sendBuffer.peek = c₀.sendBuffer.peek ++ d := by
  obtain ⟨view, hview⟩ := ha.stored
  obtain ⟨d, henc, htext⟩ := h.text
  refine ⟨d, henc, ?_⟩
  have howner : i ∈ m.messages.owners ↔ m.messages.items i ≠ [] := by
    rw [hview.owned, hview.items]
  rw [hbuf, ← htext]
  by_cases hi : i ∈ m.messages.owners
  · -- What is staged goes out directly only because nothing is buffered.
    have hcan := h.staged (howner.mp hi)
    have hempty : c.sendBuffer.peek = [] := by
      unfold Conn.canStageMedia at hcan
      rw [← List.length_eq_zero_iff, ← Buffer.available_eq]
      simp_all
    rw [if_pos hi] at htaken
    rw [hempty, List.nil_append, List.nil_append, htaken]
  · rw [if_neg hi, List.append_eq_nil_iff] at htaken
    have hnil : m.messages.items i = [] := by
      by_contra hne
      exact hi (howner.mpr hne)
    rw [htaken.1, htaken.2, StagedRelayMedia.due, StagedRelayMedia.parts, hnil]
    simp

end Sending

/-- What a player that is still there was sent in a pass is, behind what it had buffered, the
encoding of the frames that were delivered to it, in the order of the batch. -/
theorem staged_fanout_sends_encodings (cfg : CacheConfig) (settings : ServerSettings) (now : Nat)
    (abandoned : List Abandoned) (batch : List RelayFrame) (connections : List Conn)
    (closed : List Nat) (cache : CacheTable) (relaySends : Nat) (sockets : Nat → Socket)
    {r : Relaying} {deferred : List RelayFrame} {after : List Conn} {closed' : List Nat}
    {taken : List (Nat × List UInt8)}
    (hr : Relaying.run cfg settings now abandoned batch
      { fanout := { connections, closed }, cache, relaySends } = (r, deferred))
    (hs : r.fanout.staged.send sockets r.fanout.connections r.fanout.closed =
      (after, closed', taken))
    {i : Nat} {c' : Conn} (hc : after[i]? = some c') (ht : c'.transport ≠ none) :
    (deliveredTo i r.fanout.reports).Sublist batch ∧
    ∃ c d t, connections[i]? = some c ∧
      EncodesAll c c.mediaOutHeaders (deliveredTo i r.fanout.reports) d t ∧
      takenBy i taken ++ c'.sendBuffer.peek = c.sendBuffer.peek ++ d := by
  let start : Relaying := { fanout := { connections, closed }, cache, relaySends }
  have hstart : Carried connections batch start.fanout := carried_start connections batch closed
  have hcarried := hstart.run cfg settings now abandoned (show batch.drop 0 = batch from rfl)
  have horder := delivered_in_order cfg settings now abandoned batch start i
  rw [hr] at hcarried horder
  refine ⟨horder, ?_⟩
  have hsent : SentTo r.fanout.staged r.fanout.connections r.fanout.staged.messages.owners
      (after, closed', taken) := by
    rw [← hs]
    exact sent_to_all hcarried.arena r.fanout.closed
  obtain ⟨d, hd, hthere, rest, hbuf, htaken⟩ := hsent i c' hc ht
  obtain ⟨c, hc₀, hline⟩ := hcarried.rows i d hd hthere
  obtain ⟨bytes, henc, htext⟩ := hline.sent hcarried.arena hbuf htaken
  exact ⟨c, bytes, _, hc₀, henc, htext⟩

section Witness

def viewer (connId chunkSize : Nat) : Conn :=
  { connId
    app := "live"
    transport := some ⟨false⟩
    clientFd := some connId
    activeChunkSize := chunkSize
    relayEnabled := true
    currentStream := some { streamId := 1, isPlaying := true, name := "cam" } }

def camAudio (timestamp : UInt32) : RelayFrame :=
  ⟨.audio, timestamp, [0xAF, 0x01, 0x21, 0x10], none, "live", "cam", 9⟩

def twoViewers : Relaying × List RelayFrame :=
  Relaying.run mediaConfig {} 0 [] [camAudio 0, camAudio 20]
    { fanout := { connections := [viewer 3 2, viewer 4 128] }, cache := {}, relaySends := 0 }

def shortWrites : List Conn × List Nat × List (Nat × List UInt8) :=
  twoViewers.1.fanout.staged.send (fun i => if i = 0 then [.ok 15] else [.ok 10, .ok 8])
    twoViewers.1.fanout.connections twoViewers.1.fanout.closed

theorem short_writes_resume :
    shortWrites.2.2.map (fun t => t.2.length) = [15, 18] ∧
    ∃ c', shortWrites.1[1]? = some c' ∧
      (deliveredTo 1 twoViewers.1.fanout.reports).Sublist [camAudio 0, camAudio 20] ∧
      ∃ c d t, [viewer 3 2, viewer 4 128][1]? = some c ∧
        EncodesAll c c.mediaOutHeaders (deliveredTo 1 twoViewers.1.fanout.reports) d t ∧
        takenBy 1 shortWrites.2.2 ++ c'.sendBuffer.peek = c.sendBuffer.peek ++ d := by
  have hthere : (shortWrites.1[1]?).any (fun c => c.transport.isSome) = true := by decide +kernel
  obtain ⟨c', hc, ht⟩ := Option.any_eq_true _ _ |>.mp hthere
  refine ⟨by decide +kernel, c', hc, ?_⟩
  have hr : twoViewers = (twoViewers.1, twoViewers.2) := (Prod.eta twoViewers).symm
  have hs (s : List Conn × List Nat × List (Nat × List UInt8)) : s = (s.1, s.2.1, s.2.2) := rfl
  exact staged_fanout_sends_encodings mediaConfig {} 0 [] [camAudio 0, camAudio 20]
    [viewer 3 2, viewer 4 128] [] {} 0 _ hr (hs shortWrites) hc (Option.isSome_iff_ne_none.mp ht)

end Witness

end LibRtmp.Proofs
