import LibRtmp.Media.InitCache
import LibRtmp.Proofs.Turns

namespace LibRtmp.Proofs

open Relation (ReflTransGen)

/-- A frame is relayed to a player, something acts on its connection, or its backlog changes. -/
inductive PlayerOp where
  | relay (now : Nat) (cache : CacheTable) (staged : StagedRelayMedia)
    (connIndex frameIndex : Nat) (frame : RelayFrame)
  | turn (routes : Routes) (act : ConnAct)
  | backlog (sendBuffer : Buffer) (stagedMediaBytes : Nat)

/-- What a player is observed to do. It resumes when it unpauses or is granted a play. -/
inductive PlayerEvent where
  | skipped (frame : RelayFrame)
  | sent (frame : RelayFrame) (hint : DeliveryHint)
  | resumed
  deriving DecidableEq

def resumes (c : Conn) : ConnAct → Bool
  | .inbound (.message host (.command command) budget _) =>
    budget != 0 && match command with
      | .pause (some flag) => !flag
      | .play (some name) => host.decision .play c name == .allow
      | _ => false
  | .complete _ .play requestId allow =>
    allow && c.pendingAuth.play.any (fun p => p.requestId = requestId)
  | _ => false

def PlayerOp.apply (limits : PlayerFlowLimits) (c : Conn) : PlayerOp → Conn × Option PlayerEvent
  | .relay now cache staged connIndex frameIndex frame =>
    let delivery := frameDelivery mediaCodec cache frame
    match relayFrameToPlayer limits now delivery connIndex c frameIndex frame staged with
    | (.skipped, d, _) => (d, some (.skipped frame))
    | (.delivered, d, _) => (d, some (.sent frame delivery.delivery))
    | (_, d, _) => (d, none)
  | .turn routes act =>
    (c.turn mediaCodec routes act, if resumes c act then some .resumed else none)
  | .backlog sendBuffer stagedMediaBytes => ({ c with sendBuffer, stagedMediaBytes }, none)

def playerEvents (limits : PlayerFlowLimits) : Conn → List PlayerOp → List PlayerEvent
  | _, [] => []
  | c, op :: ops => (op.apply limits c).2.toList ++ playerEvents limits (op.apply limits c).1 ops

/-- Only frames of a route it plays are relayed to it, and it goes on playing that route. -/
def PlayerOp.Stays (c : Conn) : PlayerOp → Prop
  | .relay _ cache _ _ _ frame =>
    connWillReceiveRelayFrame mediaCodec c frame = true ∧
      (routeVideo mediaCodec cache frame.route).any (fun multitrack =>
        c.receivesRouteVideo (some multitrack)) = true
  | .turn routes act =>
    (c.turn mediaCodec routes act).isPlaying = true ∧
      (c.turn mediaCodec routes act).app = c.app ∧
      (c.turn mediaCodec routes act).relayRouteKey = c.relayRouteKey
  | .backlog _ _ => True

instance (c : Conn) (op : PlayerOp) : Decidable (op.Stays c) :=
  match op with
  | .relay _ _ _ _ _ _ => inferInstanceAs (Decidable (_ ∧ _))
  | .turn _ _ => inferInstanceAs (Decidable (_ ∧ _ ∧ _))
  | .backlog _ _ => inferInstanceAs (Decidable True)

def StaysPlaying (limits : PlayerFlowLimits) : Conn → List PlayerOp → Prop
  | _, [] => True
  | c, op :: ops => op.Stays c ∧ StaysPlaying limits (op.apply limits c).1 ops

instance decidableStaysPlaying (limits : PlayerFlowLimits) :
    (c : Conn) → (ops : List PlayerOp) → Decidable (StaysPlaying limits c ops)
  | _, [] => inferInstanceAs (Decidable True)
  | c, op :: ops =>
    have := decidableStaysPlaying limits (op.apply limits c).1 ops
    inferInstanceAs (Decidable (_ ∧ _))

section Flow

variable {limits : PlayerFlowLimits} {c d : Conn} {hint : DeliveryHint} {backlog now : Nat}

theorem flow_skip_congests (h : playerFlowDecision limits c hint backlog now = (.skip, d)) :
    d.relayCongestion.isSome = true := by
  unfold playerFlowDecision at h
  split at h
  · cases h
  · split at h
    · cases h
    · split at h
      · split at h
        · cases h
        · cases h
          rfl
      · rename_i congestion hc
        split at h
        · cases h
        · split at h
          · cases h
            rfl
          · split at h
            · cases h
            · cases h
              rw [hc]
              rfl

/-- A congested player is sent what is critical, and what it can resync on. -/
theorem flow_send_congested (hsoft : 0 < limits.soft) (hc : c.relayCongestion.isSome = true)
    (h : playerFlowDecision limits c hint backlog now = (.send, d)) :
    (hint = .critical ∧ d = c) ∨ hint = .resyncPoint := by
  unfold playerFlowDecision at h
  split at h
  · cases h
  · split at h
    · rename_i hcritical
      cases h
      exact .inl ⟨hcritical.resolve_left (Nat.pos_iff_ne_zero.mp hsoft), rfl⟩
    · split at h
      · rename_i hnone
        rw [hnone] at hc
        cases hc
      · split at h
        · rename_i hresync
          exact .inr hresync.1
        · split at h
          · cases h
          · split at h <;> cases h

theorem audio_no_keyframe (payload : List UInt8) : classifyAudio payload ≠ .videoKeyframe := by
  have hkind : ∀ valid, sequenceHeaderKind valid .audioSequenceHeader ≠ .videoKeyframe := by
    intro valid
    unfold sequenceHeaderKind
    split <;> simp
  unfold classifyAudio
  split
  · exact hkind _
  · split
    · simp
    · split
      · split
        · exact hkind _
        · simp
      · split
        · exact hkind _
        · simp

/-- On a route with video only a video keyframe is a point to resync on. -/
theorem resync_is_video {frameType : FrameType} {payload : List UInt8}
    (h : classifyDelivery frameType payload true = .resyncPoint) : frameType = .video := by
  cases frameType with
  | video => rfl
  | script => simp [classifyDelivery] at h
  | metadata => simp [classifyDelivery] at h
  | audio =>
    have hkey := audio_no_keyframe payload
    simp only [classifyDelivery, classifyCacheFrame] at h
    revert h hkey
    cases classifyAudio payload <;> grind

end Flow

section Steps

variable {limits : PlayerFlowLimits} {o : Orders} {c d : Conn}

def Lagging (c : Conn) : Prop := c.relayCongestion.isSome = true ∨ c.transport = none

theorem for_player_same {cache : CacheTable} {frame : RelayFrame}
    (h : (routeVideo mediaCodec cache frame.route).any (fun multitrack =>
      c.receivesRouteVideo (some multitrack)) = true) :
    (frameDelivery mediaCodec cache frame).forPlayer c =
        classifyDelivery frame.frameType frame.cachedPayload true ∧
      (frameDelivery mediaCodec cache frame).delivery =
        classifyDelivery frame.frameType frame.cachedPayload true := by
  cases hvideo : routeVideo mediaCodec cache frame.route with
  | none => simp [hvideo] at h
  | some multitrack =>
    rw [hvideo, Option.any_some] at h
    have hown : (frameDelivery mediaCodec cache frame).delivery =
        classifyDelivery frame.frameType frame.cachedPayload true := by
      unfold frameDelivery
      rw [hvideo]
      rfl
    have hroute : (frameDelivery mediaCodec cache frame).routeVideoMultitrack = some multitrack :=
      hvideo
    refine ⟨?_, hown⟩
    unfold FrameDelivery.forPlayer
    rw [hroute, h, hown]
    simp

theorem receiving_connected {frame : RelayFrame}
    (h : connWillReceiveRelayFrame mediaCodec c frame = true) : c.transport ≠ none := by
  unfold connWillReceiveRelayFrame at h
  split at h
  · cases h
  · intro hnone
    simp [hnone] at h

/-- A frame relayed to a player that is behind. -/
theorem relay_lagging {now : Nat} {cache : CacheTable} {staged : StagedRelayMedia}
    {connIndex frameIndex : Nat} {frame : RelayFrame} (hsoft : 0 < limits.soft)
    (hs : (PlayerOp.relay now cache staged connIndex frameIndex frame).Stays c)
    (hc : Lagging c) :
    let r := (PlayerOp.relay now cache staged connIndex frameIndex frame).apply limits c
    (Lagging r.1 ∧ ∀ f, r.2 ≠ some (.sent f .droppable)) ∨
      ∃ key : RelayFrame, key.frameType = .video ∧ r.2 = some (.sent key .resyncPoint) := by
  have hcongested := hc.resolve_right (receiving_connected hs.1)
  obtain ⟨hplayer, hown⟩ := for_player_same hs.2
  simp only [PlayerOp.apply, relayFrameToPlayer]
  rw [hplayer, hown]
  generalize hflow : playerFlowDecision limits c
    (classifyDelivery frame.frameType frame.cachedPayload true)
    (c.sendBuffer.available + c.stagedMediaBytes) now = r
  obtain ⟨flow, d⟩ := r
  cases flow with
  | skip =>
    have hskip := flow_skip_congests hflow
    exact .inl ⟨.inl hskip, by simp⟩
  | disconnect => exact .inl ⟨.inr rfl, by simp⟩
  | send =>
    have hsent := flow_send_congested hsoft hcongested hflow
    have hout := deliver_outputs connIndex d frameIndex frame staged
    dsimp only
    generalize deliverFrame connIndex d frameIndex frame staged = r at hout
    obtain ⟨r, e, staged'⟩ := r
    obtain ⟨_, _, _, _, rfl⟩ := hout
    cases r with
    | error _ => exact .inl ⟨.inr rfl, by simp⟩
    | ok _ =>
      rcases hsent with ⟨hcritical, rfl⟩ | hresync
      · exact .inl ⟨.inl hcongested, by simp [hcritical]⟩
      · exact .inr ⟨frame, resync_is_video hresync, by rw [hresync]⟩

/-- A frame that is skipped leaves the player behind. -/
theorem skip_lags {op : PlayerOp} {frame : RelayFrame}
    (h : (op.apply limits c).2 = some (.skipped frame)) : Lagging (op.apply limits c).1 := by
  cases op with
  | turn routes act =>
    simp only [PlayerOp.apply] at h
    split at h <;> cases h
  | backlog _ _ => cases h
  | relay now cache staged connIndex frameIndex f =>
    simp only [PlayerOp.apply, relayFrameToPlayer] at h ⊢
    generalize hflow : playerFlowDecision limits c ((frameDelivery mediaCodec cache f).forPlayer c)
      (c.sendBuffer.available + c.stagedMediaBytes) now = r at h ⊢
    obtain ⟨flow, d⟩ := r
    cases flow with
    | skip =>
      have hskip := flow_skip_congests hflow
      exact .inl hskip
    | disconnect => cases h
    | send =>
      dsimp only at h
      generalize deliverFrame connIndex d frameIndex f staged = r at h
      obtain ⟨r, e, staged'⟩ := r
      cases r <;> cases h

theorem step_transport (h : Conn.Step o c d) : d.transport = c.transport := by
  cases h with
  | routine h => exact congrArg Standing.transport h.1
  | deed h =>
    cases h with
    | publish name _ =>
      refine (congrArg Standing.transport start_publishing_standing).trans ?_
      refine (congrArg Standing.transport reset_deferred_standing).trans ?_
      exact (arm_deadline_keeps c o.now (c.nextRouteKey name)).2.2.2
    | play name _ => exact congrArg Standing.transport start_playing_standing
    | rearm name _ =>
      unfold Conn.releasePublishDeadline
      split <;> rfl
    | close _ =>
      exact (congrArg Standing.transport end_role_standing).trans (ended_keeps _ _ _).2.2.2
    | replace count _ =>
      obtain ⟨_, hopen⟩ := @open_stream_standing c o.now count
      exact (congrArg Standing.transport hopen).trans (ended_keeps _ _ _).2.2.2
    | pause flag _ => exact congrArg Standing.transport set_paused_standing
    | _ => rfl

/-- A congested player stays congested as long as it plays, unless it resumes. -/
theorem step_congested (hplay : ∀ name, ¬ o.grants .play name) (hpause : ¬ o.pauses false)
    (h : Conn.Step o c d) (hc : c.relayCongestion.isSome = true ∨ c.isPlaying = false) :
    d.relayCongestion.isSome = true ∨ d.isPlaying = false := by
  cases h with
  | routine h =>
    rw [show d.relayCongestion = c.relayCongestion from congrArg Standing.relayCongestion h.1]
    unfold Conn.isPlaying at hc ⊢
    rwa [h.stream]
  | deed h =>
    cases h with
    | publish name _ =>
      refine .inr ?_
      unfold Conn.isPlaying
      rw [start_publishing_stream]
      cases c.currentStream <;> rfl
    | play name h => exact absurd h (hplay name)
    | rearm name _ =>
      unfold Conn.releasePublishDeadline
      split <;> exact hc
    | close _ =>
      refine .inr ?_
      unfold Conn.isPlaying
      rw [show (c.endRole o.now c.isActive).currentStream = _ from
        congrArg Standing.stream end_role_standing]
      cases c.currentStream <;> rfl
    | replace count _ =>
      obtain ⟨_, hopen⟩ := @open_stream_standing c o.now count
      refine .inr ?_
      unfold Conn.isPlaying
      rw [show (c.openStream o.now c.isActive count).currentStream = _ from
        congrArg Standing.stream hopen]
      rfl
    | pause flag h =>
      cases flag with
      | false => exact absurd h hpause
      | true =>
        rw [show (c.setPaused o.now true).relayCongestion = c.relayCongestion from
          congrArg Standing.relayCongestion set_paused_standing]
        refine hc.imp_right fun hplaying => ?_
        unfold Conn.isPlaying at hplaying ⊢
        rw [show (c.setPaused o.now true).currentStream = _ from
          congrArg Standing.stream set_paused_standing, Option.map_map]
        exact hplaying
    | select frameType flag _ =>
      refine hc.imp_right fun hplaying => ?_
      unfold Conn.isPlaying Conn.setReceive Stream.setReceive at *
      cases hs : c.currentStream with
      | none => rfl
      | some st =>
        rw [hs] at hplaying
        simp only [Option.map_some, Option.getD_some] at hplaying ⊢
        split <;> exact hplaying
    | _ => exact hc

theorem not_resumed {act : ConnAct} (hr : resumes c act = false) :
    (∀ name, ¬ (act.orders c).grants .play name) ∧ ¬ (act.orders c).pauses false := by
  constructor
  · intro name hg
    cases act with
    | inbound event =>
      cases event with
      | message host m budget socket =>
        obtain ⟨hb, hcarries, _, hallow⟩ := hg
        cases m with
        | command command =>
          cases command with
          | play asked =>
            cases (show asked = some name from hcarries)
            simp [resumes, hb, hallow] at hr
          | _ => exact hcarries.elim
        | _ => exact hcarries.elim
      | _ => exact hg.elim
    | complete host role requestId allow =>
      obtain ⟨rfl, rfl, p, hp, hid, _⟩ := hg
      have hp : c.pendingAuth.play = some p := hp
      simp [resumes, hp, hid] at hr
    | _ => exact hg.elim
  · intro hp
    cases act with
    | inbound event =>
      cases event with
      | message host m budget socket =>
        cases m with
        | command command =>
          by_cases hb : budget = 0
          · simp [ConnAct.orders, ConnAct.command, hb] at hp
          · cases command with
            | pause flag =>
              cases flag <;> simp [ConnAct.orders, ConnAct.command, hb] at hp
              simp [resumes, hb, hp] at hr
            | _ => simp [ConnAct.orders, ConnAct.command, hb] at hp
        | _ => simp [ConnAct.orders, ConnAct.command] at hp
      | _ => simp [ConnAct.orders, ConnAct.command] at hp
    | _ => simp [ConnAct.orders, ConnAct.command] at hp

theorem turn_lagging {routes : Routes} {act : ConnAct} (hr : resumes c act = false)
    (hplaying : (c.turn mediaCodec routes act).isPlaying = true) (hc : Lagging c) :
    Lagging (c.turn mediaCodec routes act) := by
  have hpath := turn_steps mediaCodec c routes act
  generalize c.turn mediaCodec routes act = d at hpath hplaying
  obtain ⟨hplay, hpause⟩ := not_resumed hr
  rcases hc with hc | hc
  · have hkept : d.relayCongestion.isSome = true ∨ d.isPlaying = false := by
      clear hplaying
      induction hpath with
      | refl => exact .inl hc
      | tail _ hs ih => exact step_congested hplay hpause hs ih
    exact .inl (hkept.resolve_right (by simp [hplaying]))
  · refine .inr ?_
    clear hplaying
    induction hpath with
    | refl => exact hc
    | tail _ hs ih => exact (step_transport hs).trans ih

/-- A player that is behind gets nothing droppable, unless a keyframe is sent or it resumes. -/
theorem op_lagging {op : PlayerOp} (hsoft : 0 < limits.soft) (hs : op.Stays c) (hc : Lagging c) :
    (Lagging (op.apply limits c).1 ∧ ∀ f, (op.apply limits c).2 ≠ some (.sent f .droppable)) ∨
      (∃ key : RelayFrame, key.frameType = .video ∧
        (op.apply limits c).2 = some (.sent key .resyncPoint)) ∨
      (op.apply limits c).2 = some .resumed := by
  cases op with
  | relay now cache staged connIndex frameIndex frame =>
    exact (relay_lagging hsoft hs hc).imp_right .inl
  | turn routes act =>
    cases hr : resumes c act with
    | true => exact .inr (.inr (by simp [PlayerOp.apply, hr]))
    | false =>
      refine .inl ⟨turn_lagging hr hs.1 hc, fun f => ?_⟩
      simp [PlayerOp.apply, hr]
  | backlog sendBuffer stagedMediaBytes => exact .inl ⟨hc, by simp [PlayerOp.apply]⟩

end Steps

section Runs

variable {limits : PlayerFlowLimits}

/-- By induction on the run: before anything droppable there is a keyframe. -/
theorem lagging_run (hsoft : 0 < limits.soft) {ops : List PlayerOp} {c : Conn}
    (hs : StaysPlaying limits c ops) (hc : Lagging c) {mid rest : List PlayerEvent}
    {frame : RelayFrame}
    (he : playerEvents limits c ops = mid ++ .sent frame .droppable :: rest) :
    (∃ key : RelayFrame, key.frameType = .video ∧ .sent key .resyncPoint ∈ mid) ∨
      .resumed ∈ mid := by
  induction ops generalizing c mid with
  | nil => simp [playerEvents] at he
  | cons op ops ih =>
    have hop := op_lagging hsoft hs.1 hc
    unfold playerEvents at he
    generalize (op.apply limits c).2 = event at hop he
    cases event with
    | none =>
      have hlag : Lagging (op.apply limits c).1 := by
        rcases hop with ⟨hlag, _⟩ | ⟨_, _, hf⟩ | hf
        · exact hlag
        · cases hf
        · cases hf
      exact ih hs.2 hlag he
    | some event =>
      cases mid with
      | nil =>
        -- The droppable frame is what this step sends.
        have hsent : event = .sent frame .droppable := (List.cons.inj he).1
        rcases hop with ⟨_, hno⟩ | ⟨_, _, hf⟩ | hf
        · exact absurd (congrArg some hsent) (hno frame)
        · rw [hsent] at hf
          cases hf
        · rw [hsent] at hf
          cases hf
      | cons first mid =>
        obtain ⟨rfl, hrest⟩ := List.cons.inj he
        rcases hop with ⟨hlag, _⟩ | ⟨key, hvideo, hf⟩ | hf
        · rcases ih hs.2 hlag hrest with ⟨key, hvideo, hkey⟩ | hresumed
          · exact .inl ⟨key, hvideo, List.mem_cons_of_mem _ hkey⟩
          · exact .inr (List.mem_cons_of_mem _ hresumed)
        · cases hf
          exact .inl ⟨key, hvideo, List.mem_cons_self⟩
        · cases hf
          exact .inr List.mem_cons_self

/-- Once a frame was skipped for a player, nothing droppable is sent to it before a video keyframe
was, or the player unpaused or was granted a play. -/
theorem resumes_at_keyframe (limits : PlayerFlowLimits) (c : Conn) (ops : List PlayerOp)
    (hsoft : 0 < limits.soft) (hs : StaysPlaying limits c ops)
    (before mid rest : List PlayerEvent) (skipped frame : RelayFrame)
    (he : playerEvents limits c ops =
      before ++ .skipped skipped :: (mid ++ .sent frame .droppable :: rest)) :
    (∃ key : RelayFrame, key.frameType = .video ∧ .sent key .resyncPoint ∈ mid) ∨
      .resumed ∈ mid := by
  induction ops generalizing c before with
  | nil => simp [playerEvents] at he
  | cons op ops ih =>
    unfold playerEvents at he
    cases hevent : (op.apply limits c).2 with
    | none =>
      rw [hevent] at he
      exact ih _ hs.2 before he
    | some event =>
      rw [hevent] at he
      cases before with
      | nil =>
        obtain ⟨rfl, hrest⟩ := List.cons.inj he
        exact lagging_run hsoft hs.2 (skip_lags hevent) hrest
      | cons first before =>
        exact ih _ hs.2 before (List.cons.inj he).2

def tightLimits : PlayerFlowLimits := ⟨1000, 100000, 15000⟩

def routePlayer : Conn where
  connId := 1
  state := .playing
  app := "live"
  transport := some ⟨false⟩
  relayEnabled := true
  currentStream := some { streamId := 1, isPlaying := true, name := "cam" }

def routeCache : CacheTable where
  streamCache := AList.singleton ("live", "cam") { lastKeyframe := some (0, [0x17, 0x01]) }

def routeFrame (frameType : FrameType) (payload : List UInt8) : RelayFrame where
  frameType
  timestamp := 0
  payload
  cachePayload := none
  app := "live"
  streamName := "cam"
  publisherConnId := 2

def routeAudio : RelayFrame := routeFrame .audio [0xAF, 0x01, 0x21]

def routeKeyframe : RelayFrame := routeFrame .video [0x17, 0x01, 0x00]

def relays (frame : RelayFrame) : PlayerOp := .relay 0 routeCache {} 0 0 frame

def tellsPlayer (command : Command) : PlayerOp :=
  .turn ∅ (.inbound (.message {} (.command command) 10 []))

def fallsBehind : List PlayerOp := [.backlog .new 2000, relays routeAudio, .backlog .new 0]

/-- It gets audio again after a keyframe. -/
theorem resumes_after_keyframe :
    playerEvents tightLimits routePlayer
        (fallsBehind ++ [relays routeAudio, relays routeKeyframe, relays routeAudio]) =
      [.skipped routeAudio, .skipped routeAudio, .sent routeKeyframe .resyncPoint,
        .sent routeAudio .droppable] ∧
      ((∃ key : RelayFrame, key.frameType = .video ∧ PlayerEvent.sent key .resyncPoint ∈
        [.skipped routeAudio, .sent routeKeyframe .resyncPoint]) ∨
        PlayerEvent.resumed ∈ [.skipped routeAudio, .sent routeKeyframe .resyncPoint]) := by
  have hevents : playerEvents tightLimits routePlayer
      (fallsBehind ++ [relays routeAudio, relays routeKeyframe, relays routeAudio]) =
        [.skipped routeAudio, .skipped routeAudio, .sent routeKeyframe .resyncPoint,
          .sent routeAudio .droppable] := by decide +kernel
  exact ⟨hevents, resumes_at_keyframe tightLimits routePlayer _ (by decide) (by decide +kernel) []
    [.skipped routeAudio, .sent routeKeyframe .resyncPoint] [] routeAudio routeAudio hevents⟩

/-- It also gets it right after a pause, or a second `play` of the name it is playing. -/
theorem resumes_without_keyframe :
    (StaysPlaying tightLimits routePlayer (fallsBehind ++ [tellsPlayer (.pause (some true)),
        tellsPlayer (.pause (some false)), relays routeAudio]) ∧
      playerEvents tightLimits routePlayer (fallsBehind ++ [tellsPlayer (.pause (some true)),
          tellsPlayer (.pause (some false)), relays routeAudio]) =
        [.skipped routeAudio, .resumed, .sent routeAudio .droppable]) ∧
    (StaysPlaying tightLimits routePlayer
        (fallsBehind ++ [tellsPlayer (.play (some "cam")), relays routeAudio]) ∧
      playerEvents tightLimits routePlayer
          (fallsBehind ++ [tellsPlayer (.play (some "cam")), relays routeAudio]) =
        [.skipped routeAudio, .resumed, .sent routeAudio .droppable]) := by
  decide +kernel

end Runs

end LibRtmp.Proofs
