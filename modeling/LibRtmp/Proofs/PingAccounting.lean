import LibRtmp.Lib.Outbox
import LibRtmp.Lib.Runs
import LibRtmp.Server.Pings
import LibRtmp.Proofs.Staging

namespace LibRtmp.Proofs

open Actions WriteM

variable (c : Conn) (k : Keepalive)

section Links

def pingRequest (token : UInt32) (chunkSize : Nat) : List UInt8 :=
  controlBytes rtmpMsgUserControl (Bytes.toBe 2 uctrlPingRequest ++ Bytes.toBe 4 token.toNat)
    chunkSize

/-- Pending pings stay, and the queued ping comes `n` bytes closer. -/
structure Noted (k k' : Keepalive) (n : Nat) : Prop where
  pending : k'.pendingPings = k.pendingPings
  queued : k'.queuedPing = k.queuedPing.map (fun q =>
    { q with bytesUntilFlushed := q.bytesUntilFlushed - n })

theorem Noted.refl : Noted k k 0 :=
  ⟨rfl, by cases k.queuedPing <;> rfl⟩

theorem Noted.trans {k k' k'' : Keepalive} {n m : Nat} (h : Noted k k' n) (h' : Noted k' k'' m) :
    Noted k k'' (n + m) := by
  refine ⟨h'.pending.trans h.pending, ?_⟩
  rw [h'.queued, h.queued]
  cases k.queuedPing with
  | none => rfl
  | some q => simp [Nat.sub_sub]

theorem note_bytes_sent (now n : Nat) : Noted k (k.noteBytesSent now n) n :=
  ⟨rfl, rfl⟩

theorem note_parts_spec (now : Nat) (socket : Socket) (parts : List (List UInt8)) (offset : Nat)
    (k : Keepalive) : ∃ n, Noted k (Keepalive.noteParts now socket parts offset k) n := by
  induction socket generalizing parts offset k with
  | nil => cases parts <;> exact ⟨0, .refl k⟩
  | cons answer socket ih =>
    cases parts with
    | nil => exact ⟨0, .refl k⟩
    | cons part parts =>
      cases answer with
      | error e => exact ⟨0, .refl k⟩
      | ok n =>
        unfold Keepalive.noteParts
        dsimp only
        split
        · exact ⟨0, .refl k⟩
        · obtain ⟨m, hm⟩ := ih _ _ (k.noteBytesSent now _)
          exact ⟨_, (note_bytes_sent k now _).trans hm⟩

/-- The loop of `flush` takes bytes from the front and notes as many. -/
theorem drain_noting_spec (now : Nat) (socket : Socket) (out : Buffer) (k : Keepalive) :
    match drainNoting now socket out k with
    | (_, out', k', taken) => taken ++ out'.peek = out.peek ∧ Noted k k' taken.length := by
  induction socket generalizing out k with
  | nil => exact ⟨rfl, .refl k⟩
  | cons answer socket ih =>
    cases answer with
    | error e =>
      unfold drainNoting
      by_cases h : out.available = 0
      · rw [if_pos h]
        exact ⟨rfl, .refl k⟩
      · rw [if_neg h]
        exact ⟨rfl, .refl k⟩
    | ok n =>
      unfold drainNoting
      dsimp only
      by_cases h : min n out.available = 0
      · rw [if_pos h]
        exact ⟨rfl, .refl k⟩
      · rw [if_neg h]
        have hlater := ih (out.drain (min n out.available)) (k.noteBytesSent now (min n out.available))
        have hsent : (out.peek.take (min n out.available)).length = min n out.available := by
          rw [List.length_take, ← out.available_eq]
          omega
        generalize min n out.available = sent at hlater hsent
        generalize drainNoting now socket (out.drain sent) (k.noteBytesSent now sent) = r at hlater
        obtain ⟨result, rest, k', taken⟩ := r
        obtain ⟨hbytes, hnoted⟩ := hlater
        rw [Buffer.peek_drain] at hbytes
        refine ⟨by rw [List.append_assoc, hbytes, List.take_append_drop], ?_⟩
        rw [List.length_append, hsent]
        exact (note_bytes_sent k now sent).trans hnoted

structure FewerPings (m m' : AList (fun _ : UInt32 => Nat)) : Prop where
  kept : ∀ token t, m'.lookup token = some t → m.lookup token = some t
  length_le : m'.entries.length ≤ m.entries.length

theorem FewerPings.refl (m : AList (fun _ : UInt32 => Nat)) : FewerPings m m :=
  ⟨fun _ _ h => h, Nat.le_refl _⟩

theorem FewerPings.trans {m m' m'' : AList (fun _ : UInt32 => Nat)} (h : FewerPings m m')
    (h' : FewerPings m' m'') : FewerPings m m'' :=
  ⟨fun token t ht => h.kept token t (h'.kept token t ht), Nat.le_trans h'.length_le h.length_le⟩

theorem fewer_stale (now : Nat) :
    FewerPings k.pendingPings (k.dropStale now).pendingPings :=
  ⟨fun token t ht => ((Maps.lookup_retain _ _ token t).mp ht).1, List.length_filter_le _ _⟩

theorem fewer_answered (token : UInt32) :
    FewerPings k.pendingPings (k.pingResponse token).pendingPings := by
  refine ⟨fun j t ht => ((Maps.lookup_erase _ token j t).mp ht).2, ?_⟩
  rw [Maps.length_eq_total, Maps.length_eq_total]
  exact Maps.total_erase_le _ _ _

/-- Nothing is queued, or one ping behind what waits, when none is and fewer than four are owed. -/
inductive PingOutcome (l l' : Link) : Prop where
  | waits (same : l'.conn.sendBuffer.peek = l.conn.sendBuffer.peek)
      (queued : l'.keep.queuedPing = l.keep.queuedPing)
      (fewer : FewerPings l.keep.pendingPings l'.keep.pendingPings)
  | asks (token : UInt32) (at_ chunkSize : Nat) (idle : l.keep.queuedPing = none)
      (sent : l'.conn.sendBuffer.peek = l.conn.sendBuffer.peek ++ pingRequest token chunkSize)
      (queued : l'.keep.queuedPing = some ⟨token, at_, l'.conn.sendBuffer.available⟩)
      (room : l'.keep.pendingPings.entries.length < maxPendingPings)
      (fewer : FewerPings l.keep.pendingPings l'.keep.pendingPings)

theorem PingOutcome.after {l l' : Link} {keep : Keepalive}
    (hq : keep.queuedPing = l.keep.queuedPing)
    (hf : FewerPings l.keep.pendingPings keep.pendingPings)
    (h : PingOutcome ⟨l.conn, keep⟩ l') : PingOutcome l l' := by
  cases h with
  | waits same queued fewer => exact .waits same (queued.trans hq) (hf.trans fewer)
  | asks token at_ chunkSize idle sent queued room fewer =>
    exact .asks token at_ chunkSize (hq ▸ idle) sent queued room (hf.trans fewer)

/-- A ping request that fails has written nothing. -/
theorem send_ping_spec (token : UInt32) (s : Session) :
    match Action.on (sendPing (some token)) s with
    | (.ok _, s') => s'.conn.sendBuffer.peek =
        s.conn.sendBuffer.peek ++ pingRequest token s.conn.activeChunkSize
    | (.error _, s') => s'.conn.sendBuffer.peek = s.conn.sendBuffer.peek := by
  have hspec := control_write_spec rtmpMsgUserControl
    (Bytes.toBe 2 uctrlPingRequest ++ Bytes.toBe 4 token.toNat) s.conn.activeChunkSize
    (by simp [rtmpWireMaxMsgLength]) s.conn.sendBuffer
  simp only [sendPing, sendUserControl, List.flatMap_cons, List.flatMap_nil, List.append_nil]
  simp only [sendControl, sending, Action.on, ExceptT.run_mk, StateT.run]
  split at hspec
  · obtain ⟨out, ho, hp⟩ := hspec
    rw [ho]
    exact hp
  · obtain ⟨out, ho, hp⟩ := hspec
    rw [ho]
    exact hp

theorem request_ping_outcome (l : Link) (now : Nat) (hidle : l.keep.queuedPing = none)
    (hroom : l.keep.pendingPings.entries.length < maxPendingPings) :
    PingOutcome l (l.requestPing now).2 := by
  have hspec := send_ping_spec l.keep.nextPingToken ⟨l.conn, ∅⟩
  unfold Link.requestPing
  dsimp only
  generalize Action.on (sendPing (some l.keep.nextPingToken)) ⟨l.conn, ∅⟩ = r at hspec
  obtain ⟨result, s⟩ := r
  cases result with
  | error e => exact .waits hspec rfl (.refl _)
  | ok u => exact .asks _ now _ hidle hspec rfl hroom (.refl _)

theorem probe_outcome (l : Link) (now : Nat) (draining : Bool) (hidle : l.keep.queuedPing = none) :
    PingOutcome l (l.probe now draining).2 := by
  have hkeep : (if draining then l.keep else l.keep.dropStale now).queuedPing = l.keep.queuedPing ∧
      FewerPings l.keep.pendingPings
        (if draining then l.keep else l.keep.dropStale now).pendingPings := by
    split
    · exact ⟨rfl, .refl _⟩
    · exact ⟨rfl, fewer_stale l.keep now⟩
  unfold Link.probe
  dsimp only
  generalize (if draining then l.keep else l.keep.dropStale now) = keep at hkeep
  obtain ⟨hq, hf⟩ := hkeep
  split
  · exact .waits rfl rfl (.refl _)
  · split
    · exact .waits rfl hq hf
    · split
      · exact .waits rfl hq hf
      · rename_i hroom
        have hnone : keep.queuedPing = none := hq.trans hidle
        rw [hnone] at hroom
        exact (request_ping_outcome ⟨l.conn, keep⟩ now hnone (Nat.lt_of_not_le hroom)).after hq hf

theorem maybe_send_ping_outcome (l : Link) (now : Nat) : PingOutcome l (l.maybeSendPing now).2 := by
  have hkeep : (if l.keep.peerIsSending now && !l.keep.peerIsDraining now then l.keep.dropStale now
        else l.keep).queuedPing = l.keep.queuedPing ∧
      FewerPings l.keep.pendingPings (if l.keep.peerIsSending now && !l.keep.peerIsDraining now then
        l.keep.dropStale now else l.keep).pendingPings := by
    split
    · exact ⟨rfl, fewer_stale l.keep now⟩
    · exact ⟨rfl, .refl _⟩
  unfold Link.maybeSendPing
  dsimp only
  generalize (if l.keep.peerIsSending now && !l.keep.peerIsDraining now then l.keep.dropStale now
    else l.keep) = keep at hkeep
  obtain ⟨hq, hf⟩ := hkeep
  split
  · exact .waits rfl rfl (.refl _)
  · split
    · exact .waits rfl rfl (.refl _)
    · split
      · exact .waits rfl rfl (.refl _)
      · cases hqueued : keep.queuedPing with
        | some queued => exact .waits rfl hq hf
        | none => exact (probe_outcome ⟨l.conn, keep⟩ now _ hqueued).after hq hf

end Links

/-- A connection with its output so far, the bytes of each ping under its number. -/
structure Followed where
  link : Link
  out : Outbox UInt8 := {}
  pings : Nat := 0

inductive LinkOp where
  /-- Anything else about the connection changes. -/
  | change (c : Conn)
  | received (now : Nat)
  /-- Handshake bytes. -/
  | write (d : List UInt8)
  /-- A command, control or shared object message. -/
  | message (msg : ChunkMessage) (payload : List UInt8)
  | frame (frameType : FrameType) (timestamp : UInt32) (payload : List UInt8)
  | encodedBody (frameType : FrameType) (timestamp : UInt32) (payloadLen : Nat) (body : List UInt8)
  | ping (now : Nat)
  | pong (token : UInt32)
  | flush (now : Nat) (socket : Socket)
  | staged (now : Nat) (socket : Socket) (parts : List (List UInt8))

namespace Followed

def append (f : Followed) (tag : Option Nat) (conn : Conn) (keep : Keepalive) : Followed :=
  { f with
    link := ⟨conn, keep⟩
    out := f.out.push tag (conn.sendBuffer.peek.drop f.link.conn.sendBuffer.peek.length) }

def writing (f : Followed) (w : WriteM Unit) : Followed :=
  f.append none { f.link.conn with sendBuffer := (w.on f.link.conn.sendBuffer).2 } f.link.keep

def ping (f : Followed) (now : Nat) : Followed :=
  let link := (f.link.maybeSendPing now).2
  { f.append (some (f.pings + 1)) link.conn link.keep with
    pings := if f.link.keep.queuedPing.isNone ∧ link.keep.queuedPing.isSome then f.pings + 1
      else f.pings }

def flush (f : Followed) (now : Nat) (socket : Socket) : Followed :=
  match f.link.flush now socket with
  | (_, link, taken) => { f with link, out := f.out.release taken.length }

def sendStagedMedia (f : Followed) (now : Nat) (socket : Socket) (parts : List (List UInt8)) :
    Followed :=
  match f.link.sendStagedMedia now socket parts with
  | (_, link, taken) => { f with out := f.out.pass taken }.append none link.conn link.keep

def step (f : Followed) : LinkOp → Followed
  | .change c => { f with
      link := { f.link with conn := { c with sendBuffer := f.link.conn.sendBuffer } } }
  | .received now => { f with
      link := { f.link with keep := { f.link.keep with lastRecvProgress := some now } } }
  | .write d => f.writing (writeAll d)
  | .message msg payload =>
    f.writing (chunkWrite msg payload payload.length f.link.conn.activeChunkSize)
  | .frame frameType timestamp payload =>
    f.append none (f.link.conn.sendFrame frameType timestamp payload).2 f.link.keep
  | .encodedBody frameType timestamp payloadLen body =>
    f.append none (f.link.conn.sendEncodedMediaBody frameType timestamp payloadLen body).2
      f.link.keep
  | .ping now => f.ping now
  | .pong token => { f with link := { f.link with keep := f.link.keep.pingResponse token } }
  | .flush now socket => f.flush now socket
  | .staged now socket parts => f.sendStagedMedia now socket parts

def start (c : Conn) : Followed := { link := { conn := { c with sendBuffer := .new } } }

/-- Staged media goes out only while nothing waits in the send buffer. -/
def StagedWhenEmpty (f : Followed) : LinkOp → Prop
  | .staged _ _ _ => f.link.conn.sendBuffer.available = 0
  | _ => True

end Followed

section Writers

theorem send_frame_adds (frameType : FrameType) (timestamp : UInt32)
    (payload : List UInt8) : ∃ d, (c.sendFrame frameType timestamp payload).2.sendBuffer.peek =
      c.sendBuffer.peek ++ d := by
  have hgrow := media_message_lengthens c.mediaOutHeaders c.compactMediaHeaders
    ⟨frameType, c.mediaStreamId, timestamp⟩ payload c.mediaChunkSize c.sendBuffer
  unfold Conn.sendFrame
  generalize (writeMediaMessage c.mediaOutHeaders c.compactMediaHeaders
    ⟨frameType, c.mediaStreamId, timestamp⟩ payload c.mediaChunkSize).on c.sendBuffer = r at hgrow
  obtain ⟨result, out⟩ := r
  cases result <;> exact hgrow

theorem send_body_adds (frameType : FrameType) (timestamp : UInt32) (payloadLen : Nat)
    (body : List UInt8) :
    ∃ d, (c.sendEncodedMediaBody frameType timestamp payloadLen body).2.sendBuffer.peek =
      c.sendBuffer.peek ++ d := by
  have hgrow := media_body_lengthens c.mediaOutHeaders c.compactMediaHeaders
    ⟨frameType, c.mediaStreamId, timestamp⟩ payloadLen body c.sendBuffer
  unfold Conn.sendEncodedMediaBody
  generalize (writeMediaMessageWithBody c.mediaOutHeaders c.compactMediaHeaders
    ⟨frameType, c.mediaStreamId, timestamp⟩ payloadLen body).on c.sendBuffer = r at hgrow
  obtain ⟨result, out⟩ := r
  cases result <;> exact hgrow

theorem send_staged_adds (socket : Socket) (parts : List (List UInt8)) :
    ∃ d, (c.sendStagedMedia socket parts).2.1.sendBuffer.peek = c.sendBuffer.peek ++ d := by
  unfold Conn.sendStagedMedia
  dsimp only
  generalize sendParts (if c.transport.isSome = true then socket else []) parts 0 = r
  obtain ⟨result, taken, rest, next⟩ := r
  cases result with
  | error e => exact ⟨[], (List.append_nil _).symm⟩
  | ok u =>
    cases rest with
    | nil => exact ⟨[], (List.append_nil _).symm⟩
    | cons part rest =>
      exact (write_parts_appends (part.drop next :: rest)).reserved.lengthens c.sendBuffer

end Writers

theorem after_drain_spec (conn : Conn) (keep : Keepalive) (now : Nat) (out : Buffer) :
    ∃ since rest, rest.peek = out.peek ∧ Link.afterDrain conn keep now out =
      ⟨{ conn with sendBuffer := rest },
        { keep with sendStalledSince := since }.commitFlushedPing now⟩ := by
  unfold Link.afterDrain
  split
  · rename_i hempty
    have hnil : out.reset.peek = out.peek := by
      rw [Buffer.peek_reset, eq_comm, ← List.length_eq_zero_iff, ← Buffer.available_eq, hempty]
    exact ⟨none, out.reset, hnil, rfl⟩
  · exact ⟨_, out, rfl, rfl⟩

/-- `n` bytes leave from the front and are noted, and a ping that is gone is committed. -/
theorem flush_cases (f : Followed) (now : Nat) (socket : Socket) :
    ∃ conn keep n, conn.sendBuffer.peek = f.link.conn.sendBuffer.peek.drop n ∧
      Noted f.link.keep keep n ∧
      (f.flush now socket = { f with link := ⟨conn, keep⟩, out := f.out.release n } ∨
        f.flush now socket =
          { f with link := ⟨conn, keep.commitFlushedPing now⟩, out := f.out.release n }) := by
  unfold Followed.flush Link.flush
  by_cases hclosed : f.link.conn.clientFd.isNone = true ∨ f.link.conn.sendBuffer.available = 0
  · rw [if_pos hclosed]
    exact ⟨f.link.conn, f.link.keep, 0, rfl, .refl _, .inr rfl⟩
  · rw [if_neg hclosed]
    have hspec := drain_noting_spec now (if f.link.conn.transport.isSome then socket else [])
      f.link.conn.sendBuffer f.link.keep
    generalize drainNoting now _ f.link.conn.sendBuffer f.link.keep = r at hspec
    obtain ⟨result, out, keep, taken⟩ := r
    obtain ⟨hbytes, hnoted⟩ := hspec
    have hleft : out.peek = f.link.conn.sendBuffer.peek.drop taken.length := by
      rw [← hbytes, List.drop_left]
    cases result with
    | error e => exact ⟨_, keep, taken.length, hleft, hnoted, .inl rfl⟩
    | ok u =>
      obtain ⟨since, rest, hrest, hafter⟩ := after_drain_spec f.link.conn keep now out
      dsimp only
      rw [hafter]
      exact ⟨{ f.link.conn with sendBuffer := rest }, { keep with sendStalledSince := since },
        taken.length, hrest.trans hleft, ⟨hnoted.pending, hnoted.queued⟩, .inr rfl⟩

/-- Only the queued ping waits, as far in as its counter says, and at most four pings count. -/
structure PingsFollowed (f : Followed) : Prop where
  bytes : f.out.queue.map Prod.fst = f.link.conn.sendBuffer.peek
  counted : f.out.Counted f.pings ((f.link.keep.queuedPing.map QueuedPing.bytesUntilFlushed).getD 0)
  whole : ∀ q, f.link.keep.queuedPing = some q →
    ∃ chunkSize, f.out.message f.pings = pingRequest q.token chunkSize
  few : f.link.keep.pendingPings.entries.length + f.link.keep.queuedPing.isSome.toNat ≤
    maxPendingPings

namespace PingsFollowed

variable {f : Followed}

theorem pushed (h : PingsFollowed f) {d : List UInt8} {conn : Conn} (tag : Option Nat)
    (hd : conn.sendBuffer.peek = f.link.conn.sendBuffer.peek ++ d) :
    (f.append tag conn f.link.keep).out = f.out.push tag d ∧
      (f.out.push tag d).queue.map Prod.fst = conn.sendBuffer.peek := by
  constructor
  · simp only [Followed.append, hd, List.drop_left]
  · rw [hd, ← h.bytes]
    simp [Outbox.push, Function.comp_def]

/-- Bytes of no ping join the queue. -/
theorem append (h : PingsFollowed f) {conn : Conn}
    (hd : ∃ d, conn.sendBuffer.peek = f.link.conn.sendBuffer.peek ++ d) :
    PingsFollowed (f.append none conn f.link.keep) := by
  obtain ⟨d, hd⟩ := hd
  obtain ⟨hout, hbytes⟩ := h.pushed none hd
  refine ⟨?_, ?_, ?_, h.few⟩
  · rw [hout]
    exact hbytes
  · rw [hout]
    exact h.counted.push d
  · intro q hq
    obtain ⟨chunkSize, hm⟩ := h.whole q hq
    exact ⟨chunkSize, by rw [hout, ← hm]; exact Outbox.message_push ..⟩

/-- The connection changes, its send buffer apart, or pings are forgotten. -/
theorem same (h : PingsFollowed f) {link : Link}
    (hb : link.conn.sendBuffer.peek = f.link.conn.sendBuffer.peek)
    (hq : link.keep.queuedPing = f.link.keep.queuedPing)
    (hf : FewerPings f.link.keep.pendingPings link.keep.pendingPings) :
    PingsFollowed { f with link } := by
  refine ⟨h.bytes.trans hb.symm, ?_, ?_, ?_⟩
  · rw [hq]
    exact h.counted
  · intro q hsome
    exact h.whole q (hq ▸ hsome)
  · rw [hq]
    exact Nat.le_trans (Nat.add_le_add_right hf.length_le _) h.few

/-- A ping is queued behind what waits. -/
theorem ping (h : PingsFollowed f) (now : Nat) : PingsFollowed (f.ping now) := by
  have hout := maybe_send_ping_outcome f.link now
  unfold Followed.ping
  dsimp only
  generalize (f.link.maybeSendPing now).2 = link at hout
  cases hout with
  | waits same queued fewer =>
    have hnone : ¬ (f.link.keep.queuedPing.isNone = true ∧ link.keep.queuedPing.isSome = true) := by
      rw [queued]
      cases f.link.keep.queuedPing <;> simp
    rw [if_neg hnone]
    have hpush : f.out.push (some (f.pings + 1)) [] = f.out := by simp [Outbox.push]
    simp only [Followed.append, same, List.drop_length, hpush]
    exact h.same same queued fewer
  | asks token at_ chunkSize idle sent queued room fewer =>
    have hasked : f.link.keep.queuedPing.isNone = true ∧ link.keep.queuedPing.isSome = true := by
      rw [idle, queued]
      exact ⟨rfl, rfl⟩
    have hzero : f.out.Counted f.pings 0 := by
      have hc := h.counted
      rwa [idle] at hc
    obtain ⟨hpush, hbytes⟩ := h.pushed (some (f.pings + 1)) sent
    have hne := control_bytes_ne_nil rtmpMsgUserControl
      (Bytes.toBe 2 uctrlPingRequest ++ Bytes.toBe 4 token.toNat) chunkSize
    rw [if_pos hasked]
    have hfollowed : f.append (some (f.pings + 1)) link.conn link.keep =
        { f with link, out := f.out.push (some (f.pings + 1)) (pingRequest token chunkSize) } := by
      rw [← hpush]
      rfl
    rw [hfollowed]
    refine ⟨hbytes, ?_, ?_, ?_⟩
    · dsimp only
      rw [queued, Option.map_some, Option.getD_some, Buffer.available_eq, sent, List.length_append,
        ← h.bytes, List.length_map]
      exact hzero.next hne
    · intro q hq
      rw [queued] at hq
      cases hq
      exact ⟨chunkSize, hzero.message_next _⟩
    · dsimp only
      rw [queued]
      exact room

/-- Bytes that leave from the front bring the queued ping closer. -/
theorem release (h : PingsFollowed f) (link : Link) {n : Nat}
    (hbytes : link.conn.sendBuffer.peek = f.link.conn.sendBuffer.peek.drop n)
    (hnoted : Noted f.link.keep link.keep n) :
    PingsFollowed { f with link, out := f.out.release n } := by
  refine ⟨?_, ?_, ?_, ?_⟩
  · simp only [Outbox.release, List.map_drop, h.bytes, hbytes]
  · have hc := h.counted.release n
    simp only [hnoted.queued]
    cases hq : f.link.keep.queuedPing with
    | none => simpa [hq] using hc
    | some q => simpa [hq] using hc
  · intro q hq
    rw [hnoted.queued] at hq
    obtain ⟨q₀, hq₀, rfl⟩ := Option.map_eq_some_iff.mp hq
    obtain ⟨chunkSize, hm⟩ := h.whole q₀ hq₀
    exact ⟨chunkSize, (Outbox.message_release ..).trans hm⟩
  · have hfew := h.few
    simp only [hnoted.pending, hnoted.queued, Option.isSome_map]
    exact hfew

/-- A ping whose last byte is gone becomes a pending one. -/
theorem commit (h : PingsFollowed f) (now : Nat) :
    PingsFollowed { f with
      link := ⟨f.link.conn, f.link.keep.commitFlushedPing now⟩ } := by
  unfold Keepalive.commitFlushedPing
  cases hq : f.link.keep.queuedPing with
  | none => exact h
  | some q =>
    dsimp only
    split
    · exact h
    · rename_i hgone
      have hc := h.counted
      have hfew := h.few
      rw [hq] at hc hfew
      rw [Option.map_some, Option.getD_some, Nat.eq_zero_of_not_pos hgone] at hc
      refine ⟨h.bytes, hc, ?_, ?_⟩
      · intro q' hq'
        cases hq'
      · have hlen : (f.link.keep.pendingPings.insert q.token now).entries.length ≤
            f.link.keep.pendingPings.entries.length + 1 := by
          rw [Maps.length_eq_total, Maps.total_insert, Maps.length_eq_total]
          exact Nat.add_le_add_right (Maps.total_erase_le _ _ _) 1
        exact Nat.le_trans hlen hfew

/-- Bytes that never waited leave the queued ping where it is. -/
theorem pass (h : PingsFollowed f) (taken : List UInt8) :
    PingsFollowed { f with out := f.out.pass taken } where
  bytes := h.bytes
  counted := h.counted.pass taken
  whole := by
    intro q hq
    obtain ⟨chunkSize, hm⟩ := h.whole q hq
    exact ⟨chunkSize, (Outbox.message_pass ..).trans hm⟩
  few := h.few

theorem flush (h : PingsFollowed f) (now : Nat) (socket : Socket) :
    PingsFollowed (f.flush now socket) := by
  obtain ⟨conn, keep, n, hbytes, hnoted, hflush | hflush⟩ := flush_cases f now socket
  · rw [hflush]
    exact h.release ⟨conn, keep⟩ hbytes hnoted
  · rw [hflush]
    exact (h.release ⟨conn, keep⟩ hbytes hnoted).commit now

theorem staged (h : PingsFollowed f) (now : Nat) (socket : Socket) (parts : List (List UInt8))
    (hempty : f.link.conn.sendBuffer.available = 0) :
    PingsFollowed (f.sendStagedMedia now socket parts) := by
  obtain ⟨d, hd⟩ := send_staged_adds f.link.conn socket parts
  obtain ⟨n, hnoted⟩ := note_parts_spec now (if f.link.conn.transport.isSome then socket else [])
    parts 0 f.link.keep
  have hpeek : f.link.conn.sendBuffer.peek = [] := by
    rwa [Buffer.available_eq, List.length_eq_zero_iff] at hempty
  have hqueue : f.out.queue = [] := by
    have hb := h.bytes
    rwa [hpeek, List.map_eq_nil_iff] at hb
  unfold Followed.sendStagedMedia Link.sendStagedMedia
  dsimp only
  generalize f.link.conn.sendStagedMedia socket parts = r at hd
  generalize Keepalive.noteParts now _ parts 0 f.link.keep = keep at hnoted
  obtain ⟨result, conn, taken⟩ := r
  -- the queue is empty, so what was noted is past the queued ping
  have hkeep := h.release ⟨f.link.conn, keep⟩ (by rw [hpeek, List.drop_nil]) hnoted
  rw [Outbox.release_empty hqueue] at hkeep
  exact (hkeep.pass taken).append ⟨d, hd⟩

theorem step (h : PingsFollowed f) (op : LinkOp) (hop : f.StagedWhenEmpty op) :
    PingsFollowed (f.step op) := by
  cases op with
  | change c => exact h.same rfl rfl (.refl _)
  | received now => exact h.same rfl rfl (.refl _)
  | write d => exact h.append (write_all_lengthens d _)
  | message msg payload => exact h.append (chunk_write_lengthens msg payload _ _ _)
  | frame frameType timestamp payload => exact h.append (send_frame_adds ..)
  | encodedBody frameType timestamp payloadLen body => exact h.append (send_body_adds ..)
  | ping now => exact h.ping now
  | pong token => exact h.same rfl rfl (fewer_answered f.link.keep token)
  | flush now socket => exact h.flush now socket
  | staged now socket parts => exact h.staged now socket parts hop

theorem start : PingsFollowed (Followed.start c) where
  bytes := by simp [Followed.start]
  counted := .new
  whole := by
    intro q hq
    cases hq
  few := Nat.zero_le _

/-- A token committed now belongs to the queued ping, and the socket has all of its bytes. -/
theorem committed (h : PingsFollowed f) (now : Nat) {token : UInt32} {t : Nat}
    (ht : (f.link.keep.commitFlushedPing now).pendingPings.lookup token = some t) :
    f.link.keep.pendingPings.lookup token = some t ∨
      ∃ q, f.link.keep.queuedPing = some q ∧ q.token = token ∧
        ∃ chunkSize, Outbox.part f.pings f.out.left = pingRequest token chunkSize := by
  unfold Keepalive.commitFlushedPing at ht
  cases hq : f.link.keep.queuedPing with
  | none =>
    rw [hq] at ht
    exact .inl ht
  | some q =>
    rw [hq] at ht
    dsimp only at ht
    split at ht
    · exact .inl ht
    · rename_i hgone
      rcases (Maps.lookup_insert ..).mp ht with ⟨rfl, -⟩ | ⟨-, hold⟩
      · have hc := h.counted.count
        rw [hq, Option.map_some, Option.getD_some, Nat.eq_zero_of_not_pos hgone] at hc
        obtain ⟨chunkSize, hm⟩ := h.whole q hq
        exact .inr ⟨q, rfl, rfl, chunkSize, (Outbox.message_left hc.symm).trans hm⟩
      · exact .inl hold

/-- A token becomes pending only by a step that leaves all of its ping with the socket. -/
theorem entered (h : PingsFollowed f) (op : LinkOp) {token : UInt32} {t : Nat}
    (ht : (f.step op).link.keep.pendingPings.lookup token = some t) :
    f.link.keep.pendingPings.lookup token = some t ∨
      ∃ q, f.link.keep.queuedPing = some q ∧ q.token = token ∧
        ∃ chunkSize, Outbox.part f.pings (f.step op).out.left = pingRequest token chunkSize := by
  cases op with
  | change c => exact .inl ht
  | received now => exact .inl ht
  | write d => exact .inl ht
  | message msg payload => exact .inl ht
  | frame frameType timestamp payload => exact .inl ht
  | encodedBody frameType timestamp payloadLen body => exact .inl ht
  | ping now =>
    left
    cases maybe_send_ping_outcome f.link now with
    | waits _ _ fewer => exact fewer.kept token t ht
    | asks _ _ _ _ _ _ _ fewer => exact fewer.kept token t ht
  | pong answered => exact .inl ((fewer_answered f.link.keep answered).kept token t ht)
  | flush now socket =>
    obtain ⟨conn, keep, n, hbytes, hnoted, hflush | hflush⟩ := flush_cases f now socket
    · simp only [Followed.step, hflush, hnoted.pending] at ht
      exact .inl ht
    · simp only [Followed.step, hflush] at ht ⊢
      rcases (h.release ⟨conn, keep⟩ hbytes hnoted).committed now ht with hold | ⟨q, hq, rfl, hall⟩
      · left
        rw [← hnoted.pending]
        exact hold
      · rw [hnoted.queued] at hq
        obtain ⟨q₀, hq₀, rfl⟩ := Option.map_eq_some_iff.mp hq
        exact .inr ⟨q₀, hq₀, rfl, hall⟩
  | staged now socket parts =>
    obtain ⟨n, hnoted⟩ := note_parts_spec now (if f.link.conn.transport.isSome then socket else [])
      parts 0 f.link.keep
    left
    rw [← hnoted.pending]
    exact ht

end PingsFollowed

/-- In every run: the waiting bytes are the send buffer's; a queued ping's counter is the number
of bytes in it up to the ping's last one; no other ping has bytes in it; pings count at most four;
and a token becomes pending by a step after which the socket has the whole ping. -/
theorem pings_follow_bytes (c : Conn) (ops : List LinkOp)
    (h : Runs.Throughout Followed.step Followed.StagedWhenEmpty (.start c) ops) :
    let f := Runs.exec Followed.step (.start c) ops
    f.out.queue.map Prod.fst = f.link.conn.sendBuffer.peek ∧
      (∀ q, f.link.keep.queuedPing = some q →
        q.bytesUntilFlushed = f.out.remaining f.pings ∧
          ∃ chunkSize, f.out.message f.pings = pingRequest q.token chunkSize) ∧
      (∀ x ∈ f.out.queue, ∀ i, x.2 = some i →
        i = f.pings ∧ f.link.keep.queuedPing.isSome) ∧
      f.link.keep.pendingPings.entries.length + f.link.keep.queuedPing.isSome.toNat ≤ 4 ∧
      ∀ op token t, f.StagedWhenEmpty op →
        (f.step op).link.keep.pendingPings.lookup token = some t →
        f.link.keep.pendingPings.lookup token ≠ some t →
        ∃ q, f.link.keep.queuedPing = some q ∧ q.token = token ∧
          ∃ chunkSize, Outbox.part f.pings (f.step op).out.left = pingRequest token chunkSize := by
  have hf : PingsFollowed (Runs.exec Followed.step (.start c) ops) :=
    Runs.exec_invariant_while (fun f op hf hop => hf.step op hop) (.start c) h
  dsimp only
  generalize Runs.exec Followed.step (.start c) ops = f at hf
  refine ⟨hf.bytes, ?_, ?_, hf.few, ?_⟩
  · intro q hq
    have hc := hf.counted.count
    rw [hq] at hc
    exact ⟨hc, hf.whole q hq⟩
  · intro x hx i hi
    refine ⟨hf.counted.only x hx i hi, ?_⟩
    by_contra hnone
    have hc := hf.counted
    rw [Option.not_isSome_iff_eq_none.mp hnone] at hc
    rw [hc.clear x hx] at hi
    cases hi
  · intro op token t _ ht hnew
    exact (hf.entered op ht).resolve_left hnew

/-- Staged media of which one byte is left waiting, a ping, and a socket that takes ten bytes. -/
def pingBehindMedia : List LinkOp :=
  [.staged 0 [.ok 2] [[7, 8, 9]], .ping 1, .flush 2 [.ok 10]]

def pingedConn : Conn :=
  { state := .appConnected, transport := some ⟨false⟩, clientFd := some 3 }

theorem ping_counted_down :
    Runs.Throughout Followed.step Followed.StagedWhenEmpty (.start pingedConn) pingBehindMedia ∧
      let f := Runs.exec Followed.step (.start pingedConn) pingBehindMedia
      f.link.keep.queuedPing.map QueuedPing.bytesUntilFlushed = some 9 ∧
        ∀ q, f.link.keep.queuedPing = some q → q.bytesUntilFlushed = f.out.remaining f.pings :=
  have h : Runs.Throughout Followed.step Followed.StagedWhenEmpty (.start pingedConn)
    pingBehindMedia := ⟨rfl, trivial, trivial, trivial⟩
  ⟨h, by decide +kernel, fun q hq => ((pings_follow_bytes pingedConn pingBehindMedia h).2.1 q hq).1⟩

end LibRtmp.Proofs
