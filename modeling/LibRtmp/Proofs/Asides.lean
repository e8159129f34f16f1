import LibRtmp.Lib.Rows
import LibRtmp.Server.Stage

namespace LibRtmp.Proofs

open Actions

variable (c : Conn) (frameType : FrameType) (timestamp : UInt32)

/-- Work on the output side only. -/
theorem aside_output (sendBuffer : Buffer) (mediaOutHeaders : MediaHeaderTracker)
    (stagedMediaBytes mediaBytesSent : Nat) :
    Aside c { c with sendBuffer, mediaOutHeaders, stagedMediaBytes, mediaBytesSent } :=
  ⟨fun _ => rfl, rfl, rfl, rfl, fun h => h, .inr ⟨rfl, fun h => h⟩⟩

theorem disconnect_aside : Aside c c.disconnectTransport :=
  ⟨fun _ => rfl, rfl, rfl, rfl, fun _ => rfl, .inl rfl⟩

theorem stop_player_aside : Aside c (stopRelayPlayer c) :=
  ⟨fun _ => rfl, rfl, rfl, rfl, fun _ => rfl, .inl rfl⟩

theorem flush_aside (socket : Socket) : Aside c (c.flush socket).2 := by
  unfold Conn.flush
  split
  · exact .refl c
  · split <;> exact aside_output c _ _ _ _

theorem rearm_aside (now : Nat) : Aside c (c.rearmDeferredInitReplay now) := by
  unfold Conn.rearmDeferredInitReplay
  split
  · exact .refl c
  · split
    · exact ⟨fun _ => rfl, rfl, rfl, rfl, fun h => h, .inr ⟨rfl, fun h => h⟩⟩
    · split
      · exact .refl c
      · exact ⟨fun _ => rfl, rfl, rfl, rfl, fun h => h, .inr ⟨rfl, fun _ => rfl⟩⟩

theorem send_frame_aside
    (payload : List UInt8) : Aside c (c.sendFrame frameType timestamp payload).2 := by
  unfold Conn.sendFrame
  split <;> exact aside_output c _ _ _ _

theorem send_all_aside (frames : List InitFrame) : Aside c (c.sendAll frames).2.1 := by
  induction frames generalizing c with
  | nil => exact .refl c
  | cons frame frames ih =>
    obtain ⟨frameType, timestamp, payload⟩ := frame
    have hsend := send_frame_aside c frameType timestamp payload
    unfold Conn.sendAll
    generalize c.sendFrame frameType timestamp payload = r at hsend
    obtain ⟨r, d⟩ := r
    cases r with
    | error _ => exact hsend.trans (ih d)
    | ok _ => exact hsend.trans (ih d)

theorem send_phases_aside (phases : List (List InitFrame)) :
    Aside c (c.sendPhases phases).2.1 := by
  induction phases generalizing c with
  | nil => exact .refl c
  | cons frames phases ih =>
    have hsend := send_all_aside c frames
    unfold Conn.sendPhases
    generalize c.sendAll frames = r at hsend
    obtain ⟨failed, d, sent⟩ := r
    cases failed with
    | true => exact hsend
    | false => exact hsend.trans (ih d)

theorem cached_headers_aside (codec : Codec) (c : Conn) (cache : StreamCache) (stream : Stream) :
    Aside c (c.replayCachedHeaders codec cache stream).2.1 :=
  send_phases_aside c _

theorem replay_unseen (codec : Codec) (t : CacheTable) (c : Conn) :
    Unseen c (c.replayInitFrames codec t).2.1 := by
  have hcleared : Unseen c { c with needsInitFrames := false } := fun _ => rfl
  unfold Conn.replayInitFrames
  split
  · exact .refl c
  · rename_i stream _
    split
    · exact .refl c
    · dsimp only
      split
      · exact hcleared
      · rename_i cache _
        have hsend := cached_headers_aside codec { c with needsInitFrames := false } cache stream
        generalize Conn.replayCachedHeaders codec { c with needsInitFrames := false } cache stream = r
          at hsend
        obtain ⟨failed, d, sent⟩ := r
        cases failed with
        | true => exact (hcleared.trans hsend.unseen).trans (stop_player_aside d).unseen
        | false => exact hcleared.trans hsend.unseen

theorem ping_and_flush_aside (input : ConnInput) (c : Conn) : Aside c (c.pingAndFlush input).2 := by
  have hping : ∀ token, Aside c (Action.on (sendPing token) ⟨c, ∅⟩).2.conn := by
    intro token
    cases token with
    | none => exact .refl c
    | some token => exact aside_output c _ _ _ _
  unfold Conn.pingAndFlush
  split
  · exact .refl c
  · split
    · exact .refl c
    · rename_i token _
      have hp := hping token
      split
      · rename_i t ht
        rw [ht] at hp
        exact hp
      · rename_i t ht
        rw [ht] at hp
        have hf := flush_aside t.conn input.flushSocket
        split
        · rename_i d hd
          rw [hd] at hf
          exact hp.trans hf
        · rename_i d hd
          rw [hd] at hf
          exact hp.trans hf

/-- What staging sends to a connection's socket touches its output only. -/
theorem send_staged_aside (socket : Socket) (parts : List (List UInt8)) :
    Aside c (c.sendStagedMedia socket parts).2.1 := by
  unfold Conn.sendStagedMedia
  dsimp only
  split
  · exact aside_output c _ _ _ _
  · exact aside_output c _ _ _ _
  · exact aside_output c _ _ _ _

theorem flow_decision_aside (limits : PlayerFlowLimits) (c : Conn) (delivery : DeliveryHint)
    (backlog now : Nat) : Aside c (playerFlowDecision limits c delivery backlog now).2 := by
  have hcongested : ∀ congestion, Aside c { c with relayCongestion := congestion } :=
    fun _ => ⟨fun _ => rfl, rfl, rfl, rfl, fun h => h, .inr ⟨rfl, fun h => h⟩⟩
  unfold playerFlowDecision
  split
  · exact .refl c
  · split
    · exact .refl c
    · split
      · split
        · exact .refl c
        · exact hcongested _
      · split
        · exact hcongested _
        · split
          · exact hcongested _
          · split <;> exact .refl c

def Outputs (c d : Conn) : Prop :=
  ∃ sendBuffer mediaOutHeaders stagedMediaBytes mediaBytesSent,
    d = { c with sendBuffer, mediaOutHeaders, stagedMediaBytes, mediaBytesSent }

theorem Outputs.refl : Outputs c c := ⟨_, _, _, _, rfl⟩

theorem Outputs.aside {c d : Conn} (h : Outputs c d) : Aside c d := by
  obtain ⟨_, _, _, _, rfl⟩ := h
  exact aside_output c _ _ _ _

theorem stage_body_outputs (payloadLen bodyLen : Nat) (headers : Buffer) :
    Outputs c (c.stageEncodedMediaBody frameType timestamp payloadLen bodyLen headers).2.1 := by
  unfold Conn.stageEncodedMediaBody
  split
  · exact .refl c
  · split
    · exact .refl c
    · exact ⟨_, _, _, _, rfl⟩

theorem send_body_outputs (payloadLen : Nat) (body : List UInt8) :
    Outputs c (c.sendEncodedMediaBody frameType timestamp payloadLen body).2 := by
  unfold Conn.sendEncodedMediaBody
  split <;> exact ⟨_, _, _, _, rfl⟩

theorem deliver_outputs (connIndex : Nat) (c : Conn) (frameIndex : Nat) (frame : RelayFrame)
    (staged : StagedRelayMedia) :
    Outputs c (deliverFrame connIndex c frameIndex frame staged).2.1 := by
  unfold deliverFrame
  generalize staged.bodyFor frameIndex frame c.mediaChunkSize = r
  obtain ⟨body, staged⟩ := r
  cases body with
  | none => exact .refl c
  | some body =>
    dsimp only
    generalize ((staged.bodies[body]?).map (fun b => b.bytes.peek)).getD [] = bytes
    split
    · have hstage := stage_body_outputs c frame.frameType frame.timestamp frame.payload.length
        bytes.length staged.headers
      generalize c.stageEncodedMediaBody frame.frameType frame.timestamp frame.payload.length
        bytes.length staged.headers = r at hstage
      obtain ⟨r, d, headers⟩ := r
      cases r <;> exact hstage
    · exact send_body_outputs c _ _ _ _

theorem relay_to_player_aside (limits : PlayerFlowLimits) (now : Nat) (delivery : FrameDelivery)
    (connIndex : Nat) (c : Conn) (frameIndex : Nat) (frame : RelayFrame)
    (staged : StagedRelayMedia) :
    Aside c (relayFrameToPlayer limits now delivery connIndex c frameIndex frame staged).2.1 := by
  unfold relayFrameToPlayer
  dsimp only
  have hflow := flow_decision_aside limits c (delivery.forPlayer c)
    (c.sendBuffer.available + c.stagedMediaBytes) now
  generalize playerFlowDecision limits c (delivery.forPlayer c)
    (c.sendBuffer.available + c.stagedMediaBytes) now = r at hflow
  obtain ⟨flow, d⟩ := r
  cases flow with
  | skip => exact hflow.trans ⟨fun _ => rfl, rfl, rfl, rfl, fun h => h, .inr ⟨rfl, fun h => h⟩⟩
  | disconnect => exact hflow.trans (stop_player_aside d)
  | send =>
    have hdeliver := (deliver_outputs connIndex d frameIndex frame staged).aside
    dsimp only
    generalize deliverFrame connIndex d frameIndex frame staged = r at hdeliver
    obtain ⟨r, e, staged⟩ := r
    cases r with
    | error _ => exact (hflow.trans hdeliver).trans (stop_player_aside e)
    | ok _ => exact hflow.trans hdeliver

end LibRtmp.Proofs
