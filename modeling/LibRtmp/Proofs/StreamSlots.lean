import LibRtmp.Session.Slots
import LibRtmp.Proofs.RequestIds

namespace LibRtmp.Proofs

open Actions
open Relation (ReflTransGen)

section Slots

variable {c d : Conn} {o : Mandate}

def Conn.slots (c : Conn) : Nat × UInt32 × Option UInt32 :=
  (c.activeStreamCount, c.nextStreamId, c.currentStream.map Stream.streamId)

theorem slots_eq (hdesk : Conn.desk d = Conn.desk c)
    (hstream : d.currentStream.map Stream.streamId = c.currentStream.map Stream.streamId) :
    Conn.slots d = Conn.slots c :=
  Prod.ext (congrArg (fun desk => desk.2.2.1) hdesk)
    (Prod.ext (congrArg (fun desk => desk.2.2.2) hdesk) hstream)

theorem tidies_slots (h : Tidies c d) : Conn.slots d = Conn.slots c := by
  have hcore := h.1
  unfold Conn.slots
  rw [h.routine.stream, show d.activeStreamCount = c.activeStreamCount from
    congrArg Core.activeStreamCount hcore, show d.nextStreamId = c.nextStreamId from
    congrArg Core.nextStreamId hcore]

theorem map_stream_id {f : Stream → Stream} (h : ∀ s, (f s).streamId = s.streamId)
    (stream : Option Stream) : (stream.map f).map Stream.streamId = stream.map Stream.streamId := by
  rw [Option.map_map]
  exact congrArg (fun g => stream.map g) (funext h)

/-- Only the end of a role changes the streams. -/
theorem move_slots (ho : ¬ o.ends) (h : Conn.Move o c d) : Conn.slots d = Conn.slots c := by
  have htake : ∀ role name (s : Stream), (s.takeRole role name).streamId = s.streamId := by
    intro role name s
    cases role <;> rfl
  cases h with
  | tidy _ h => exact tidies_slots h
  | advance new _ =>
    refine slots_eq (transition_desk c new) ?_
    rw [(transition_routine c new).stream]
  | drop role _ =>
    unfold Conn.dropPendingAuth
    split <;> rfl
  | deed _ h =>
    cases h with
    | publish name _ =>
      refine slots_eq (start_publishing_desk c _ name) ?_
      rw [start_publishing_stream]
      exact map_stream_id (htake .publish name) _
    | play name _ =>
      refine slots_eq (start_playing_desk c _ name) ?_
      have hstream := congrArg Standing.stream (@start_playing_standing c o.now name)
      exact (congrArg (Option.map Stream.streamId) hstream).trans (map_stream_id (htake .play name) _)
    | rearm name _ =>
      unfold Conn.releasePublishDeadline
      split <;> rfl
    | close h => exact absurd h ho
    | replace count h => exact absurd h ho
    | pause flag _ =>
      refine slots_eq (set_paused_desk c _ flag) ?_
      have hstream := congrArg Standing.stream (@set_paused_standing c o.now flag)
      exact (congrArg (Option.map Stream.streamId) hstream).trans
        (@map_stream_id (fun s => { s with paused := flag }) (fun _ => rfl) _)
    | select frameType flag _ =>
      refine slots_eq rfl (map_stream_id (fun s => ?_) _)
      unfold Stream.setReceive
      split <;> rfl
    | _ => rfl
  | _ => rfl

theorem turn_slots (codec : Codec) (routes : Routes) {act : ConnAct}
    (h : ¬ act.command.any Command.endsRole = true) :
    Conn.slots (c.turn codec routes act) = Conn.slots c := by
  have hpath := turn_moves codec c routes act
  generalize c.turn codec routes act = d at hpath
  induction hpath with
  | refl => rfl
  | tail _ hs ih => exact (move_slots h hs).trans ih

theorem drop_both_slots (c : Conn) : Conn.slots c.dropPendingAuthorizations = Conn.slots c := by
  have hdrop : ∀ role (d : Conn), Conn.slots (d.dropPendingAuth role) = Conn.slots d := by
    intro role d
    unfold Conn.dropPendingAuth
    split <;> rfl
  exact (hdrop .play _).trans (hdrop .publish c)

theorem refresh_timer_slots (c : Conn) (now : Nat) (wasActive : Bool) :
    Conn.slots (c.refreshSetupTimer now wasActive) = Conn.slots c := by
  unfold Conn.refreshSetupTimer
  split <;> rfl

theorem end_role_slots (c : Conn) (now : Nat) (wasActive : Bool) :
    Conn.slots (c.endRole now wasActive) =
      (c.activeStreamCount - 1, c.nextStreamId, c.currentStream.map Stream.streamId) := by
  unfold Conn.endRole
  dsimp only
  rw [drop_both_slots]
  refine (refresh_timer_slots _ now wasActive).trans ?_
  exact congrArg (fun id => (c.activeStreamCount - 1, c.nextStreamId, id))
    (@map_stream_id Stream.endRole (fun _ => rfl) _)

theorem open_stream_slots (c : Conn) (now : Nat) (wasActive : Bool) (count : Nat) :
    Conn.slots (c.openStream now wasActive count) =
      (count, c.nextStreamId + 1, some (c.nextStreamId + 1)) := by
  have hdrop := drop_both_slots { c with relayEnabled := false }
  unfold Conn.openStream
  dsimp only
  generalize Conn.dropPendingAuthorizations { c with relayEnabled := false } = d at hdrop
  have hissued : d.nextStreamId = c.nextStreamId := congrArg (fun slots => slots.2.1) hdrop
  have hmoved : ∀ e : Conn, Conn.slots (e.transition .streamCreated) = Conn.slots e := by
    intro e
    unfold Conn.transition
    split <;> rfl
  rw [hmoved, refresh_timer_slots, hissued]
  rfl

end Slots

section Commands

variable {s : Session} {h : Host}

/-- A teardown takes one off the count and leaves the stream where it is. -/
theorem teardown_slots (eof : Option UInt32) :
    Conn.slots ((teardownStream h eof).on s).2.conn = (s.conn.activeStreamCount - 1,
      s.conn.nextStreamId, s.conn.currentStream.map Stream.streamId) := by
  have hevict := tidies_slots (evict_active_path peerCause s).2
  have hsent := tidies_slots (quiet_eof eof
    ⟨s.evictActivePublishRoute.conn.endRole h.now s.conn.isActive,
      s.evictActivePublishRoute.routes⟩).2
  refine hsent.trans ((end_role_slots _ h.now s.conn.isActive).trans ?_)
  exact congrArg (fun slots => (slots.1 - 1, slots.2)) hevict

/-- A `createStream` is the only command that gives out an id. -/
theorem create_stream_slots (txn : Option UInt64) (parsed : Bool) :
    Conn.slots ((handleCreateStream h txn parsed).on s).2.conn =
      if s.conn.createsStream (.createStream txn parsed) ∧
          s.conn.projectedStreamCount ≤ maxStreamsPerConn then
        (s.conn.projectedStreamCount, s.conn.nextStreamId + 1, some (s.conn.nextStreamId + 1))
      else Conn.slots s.conn := by
  have hstatus : ∀ description, Conn.slots (Action.on
      (sendOnStatus 0 "error" "NetStream.Failed" description) s).2.conn = Conn.slots s.conn :=
    fun description => tidies_slots (quiet_status 0 "error" "NetStream.Failed" description s).2
  have herror : ∀ txn description, Conn.slots (Action.on
      (sendCommandError txn "NetStream.Failed" description) s).2.conn = Conn.slots s.conn :=
    fun txn description => tidies_slots (quiet_error txn "NetStream.Failed" description s).2
  unfold handleCreateStream
  rw [Action.on_bind, Action.on_get]
  dsimp only
  by_cases hstate : s.conn.state < .appConnected
  · have hearly : ¬ ConnState.appConnected ≤ s.conn.state := Nat.not_le.mpr hstate
    rw [if_pos hstate, if_neg (by cases txn <;> cases parsed <;> simp [Conn.createsStream, hearly])]
    rw [hstatus]
  have hjoined : ConnState.appConnected ≤ s.conn.state := Nat.not_lt.mp hstate
  rw [if_neg hstate]
  cases txn with
  | none =>
    rw [if_neg (by simp [Conn.createsStream])]
    exact hstatus _
  | some txn =>
    cases parsed with
    | false =>
      rw [if_neg (by simp [Conn.createsStream])]
      exact herror _ _
    | true =>
      dsimp only
      rw [if_neg (by decide)]
      by_cases hcount : s.conn.projectedStreamCount > maxStreamsPerConn
      · rw [if_pos hcount, if_neg fun hc => absurd hc.2 (Nat.not_le.mpr hcount)]
        exact herror _ _
      · rw [if_neg hcount, if_pos ⟨by simpa [Conn.createsStream] using hjoined, Nat.not_lt.mp hcount⟩]
        have hevict := tidies_slots (evict_active_path peerCause s).2
        have hquiet : Quiet (do
            let s ← get
            sendCreateStreamResponse txn s.conn.streamId) :=
          quiet_bind quiet_get fun _ => quiet_command _ _
        have hsent := tidies_slots (hquiet ⟨s.evictActivePublishRoute.conn.openStream h.now
          s.conn.isActive s.conn.projectedStreamCount, s.evictActivePublishRoute.routes⟩).2
        refine hsent.trans ((open_stream_slots _ h.now s.conn.isActive _).trans ?_)
        exact congrArg (fun slots => (s.conn.projectedStreamCount, slots.2.1 + 1,
          some (slots.2.1 + 1))) hevict

end Commands

section Turning

/-- What an act does to the streams, by the command it handles. -/
theorem turn_slots_cases (codec : Codec) (c : Conn) (routes : Routes) (act : ConnAct) :
    Conn.slots (c.turn codec routes act) =
      if act.command.any c.tearsDown then
        (c.activeStreamCount - 1, c.nextStreamId, c.currentStream.map Stream.streamId)
      else if act.command.any c.createsStream ∧ c.projectedStreamCount ≤ maxStreamsPerConn then
        (c.projectedStreamCount, c.nextStreamId + 1, some (c.nextStreamId + 1))
      else Conn.slots c := by
  by_cases hends : act.command.any Command.endsRole = true
  · obtain ⟨command, hcommand, hrole⟩ := (Option.any_eq_true _ _).mp hends
    obtain ⟨host, budget, socket, hb, rfl⟩ : ∃ host budget socket, budget ≠ 0 ∧
        act = .inbound (.message host (.command command) budget socket) := by
      unfold ConnAct.command at hcommand
      split at hcommand
      · split at hcommand
        · cases hcommand
        · rename_i host m budget socket hb
          cases hcommand
          exact ⟨host, budget, socket, hb, rfl⟩
      · cases hcommand
    rw [tidies_slots (command_turn socket routes hb), hcommand, Option.any_some, Option.any_some]
    cases command with
    | fcUnpublish =>
      simp only [handleCommand]
      rw [Action.on_bind, Action.on_get, show c.tearsDown .fcUnpublish = true from rfl, if_pos rfl]
      exact teardown_slots _
    | deleteStream =>
      simp only [handleCommand]
      rw [Action.on_bind, Action.on_get, show c.tearsDown .deleteStream = true from rfl, if_pos rfl]
      exact teardown_slots _
    | closeStream target =>
      unfold handleCommand
      rw [Action.on_bind, Action.on_get]
      dsimp only
      by_cases hnamed : c.currentStream.map Stream.streamId =
          some ((target.orElse fun _ => c.currentStream.map Stream.streamId).getD 0)
      · rw [if_pos hnamed, if_pos (by simpa [Conn.tearsDown] using hnamed)]
        exact teardown_slots _
      · rw [if_neg hnamed, if_neg (by simpa [Conn.tearsDown] using hnamed),
          if_neg (by simp [Conn.createsStream])]
        rfl
    | createStream txn parsed =>
      rw [if_neg (by simp [Conn.tearsDown])]
      exact create_stream_slots txn parsed
    | _ => cases hrole
  · have hother : ∀ p : Command → Bool, (∀ command, p command = true → command.endsRole = true) →
        ¬ act.command.any p = true := by
      intro p hp hany
      obtain ⟨command, hcommand, hpc⟩ := (Option.any_eq_true _ _).mp hany
      exact hends ((Option.any_eq_true _ _).mpr ⟨command, hcommand, hp command hpc⟩)
    rw [turn_slots codec routes hends, if_neg (hother _ ?_), if_neg fun hc => hother _ ?_ hc.1]
    · intro command hp
      cases command <;> first | rfl | cases hp
    · intro command hp
      cases command <;> first | rfl | cases hp

end Turning

section Counting

variable {codec : Codec} {l : LiveStream} {t : Routes × ConnAct}

structure InStep (l : LiveStream) : Prop where
  counted : l.Counted
  held : l.live = true → l.conn.currentStream.isSome = true

theorem creates_keeps {c : Conn} {act : ConnAct} (h : act.command.any c.createsStream = true) :
    ¬ act.command.any c.tearsDown = true := by
  obtain ⟨command, hcommand, hcreates⟩ := (Option.any_eq_true _ _).mp h
  rw [hcommand, Option.any_some]
  cases command <;> first | cases hcreates | simp [Conn.tearsDown]

/-- The counter stays right unless a torn-down stream is replaced. -/
theorem in_step_turn (h : InStep l) (hr : l.recreates t.2 = false) : InStep (l.turn codec t) := by
  obtain ⟨hcounted, hheld⟩ := h
  have hslots := turn_slots_cases codec l.conn t.1 t.2
  unfold LiveStream.turn
  unfold LiveStream.Counted at hcounted
  dsimp only
  generalize l.conn.turn codec t.1 t.2 = d at hslots
  have hsome : ∀ id : Option UInt32, d.currentStream.map Stream.streamId = id →
      d.currentStream.isSome = id.isSome := by
    rintro _ rfl
    rw [Option.isSome_map]
  split at hslots
  · rename_i htears
    obtain ⟨hcount, hissued, hcurrent⟩ : _ ∧ _ ∧ _ := by simpa [Conn.slots] using hslots
    rw [if_neg (not_not.mpr hissued), if_pos htears]
    refine ⟨?_, fun hlive => Bool.noConfusion hlive⟩
    unfold LiveStream.Counted
    rw [hcount, hcounted]
    cases l.live <;> rfl
  · rename_i hkeeps
    split at hslots
    · rename_i hcreates
      obtain ⟨hcount, hissued, hcurrent⟩ : _ ∧ _ ∧ _ := by simpa [Conn.slots] using hslots
      have hnew : d.nextStreamId ≠ l.conn.nextStreamId := by simp [hissued]
      rw [if_pos hnew]
      refine ⟨?_, fun _ => ?_⟩
      · unfold LiveStream.Counted
        rw [hcount]
        unfold LiveStream.recreates at hr
        rw [hcreates.1] at hr
        unfold Conn.projectedStreamCount
        cases hlive : l.live with
        | true => rw [if_pos (hheld hlive), hcounted, hlive]
        | false =>
          rw [hlive] at hr
          have hnone : ¬ l.conn.currentStream.isSome = true := by simpa using hr
          rw [if_neg hnone, hcounted, hlive]
          rfl
      · rw [hsome (some (l.conn.nextStreamId + 1)) (by simpa using hcurrent), Option.isSome_some]
    · obtain ⟨hcount, hissued, hcurrent⟩ : _ ∧ _ ∧ _ := by simpa [Conn.slots] using hslots
      rw [if_neg (not_not.mpr hissued), if_neg hkeeps]
      refine ⟨hcount.trans hcounted, fun hlive => ?_⟩
      rw [hsome _ hcurrent, Option.isSome_map]
      exact hheld hlive

theorem recreation_miscounts (h : InStep l) (hr : ¬ l.recreates t.2 = false) :
    ¬ (l.turn codec t).Counted := by
  unfold LiveStream.recreates at hr
  rw [Bool.not_eq_false, Bool.and_eq_true, Bool.and_eq_true] at hr
  obtain ⟨⟨hdead, hstream⟩, hcreates⟩ := hr
  have hcounted := h.counted
  have hslots := turn_slots_cases codec l.conn t.1 t.2
  have hzero : l.conn.projectedStreamCount = 0 := by
    unfold Conn.projectedStreamCount
    rw [if_pos hstream, hcounted, if_neg (by simpa using hdead)]
  rw [if_neg (creates_keeps hcreates), if_pos ⟨hcreates, by rw [hzero]; exact Nat.zero_le _⟩,
    hzero] at hslots
  unfold LiveStream.turn
  dsimp only
  generalize l.conn.turn codec t.1 t.2 = d at hslots
  obtain ⟨hcount, hissued, _⟩ : _ ∧ _ ∧ _ := by simpa [Conn.slots] using hslots
  have hnew : d.nextStreamId ≠ l.conn.nextStreamId := by simp [hissued]
  rw [if_pos hnew]
  unfold LiveStream.Counted
  rw [hcount]
  exact Nat.zero_ne_one

/-- The counter equals the number of live streams in all states of a run exactly if no stream is
created while one that was torn down is still held. -/
theorem stream_count_right_iff (codec : Codec) (start : Conn) (hcount : start.activeStreamCount = 0)
    (turns : Turns) :
    (∀ past, past <+: turns → (Runs.exec (LiveStream.turn codec) { conn := start } past).Counted) ↔
      Runs.Throughout (LiveStream.turn codec) (fun l t => l.recreates t.2 = false)
        { conn := start } turns := by
  refine Runs.good_iff_throughout (fun _ _ => in_step_turn) (fun _ _ => recreation_miscounts)
    (fun _ h => h.counted) ⟨?_, fun hlive => Bool.noConfusion hlive⟩ turns
  exact hcount

def sentCommand (command : Command) : Routes × ConnAct :=
  (∅, .inbound (.message {} (.command command) 10 []))

def deletedTurns : Turns :=
  [sentCommand (.connect (.ok ⟨{ info := { transactionId := 1 } }, some "live"⟩)),
    sentCommand (.createStream (some 2) true), sentCommand .deleteStream]

/-- As long as no stream is created again, the count is right. -/
theorem deleted_stream_counted :
    Runs.Throughout (LiveStream.turn mediaCodec) (fun l t => l.recreates t.2 = false)
        { conn := {} } deletedTurns ∧
      ∀ past, past <+: deletedTurns →
        (Runs.exec (LiveStream.turn mediaCodec) { conn := {} } past).Counted := by
  have hsteady : Runs.Throughout (LiveStream.turn mediaCodec) (fun l t => l.recreates t.2 = false)
      { conn := {} } deletedTurns := by
    refine ⟨?_, ?_, ?_, trivial⟩
    all_goals decide +kernel
  exact ⟨hsteady, (stream_count_right_iff mediaCodec {} rfl deletedTurns).mpr hsteady⟩

/-- A stream created after a deletion is not counted. -/
theorem recreated_stream_uncounted :
    ¬ (Runs.exec (LiveStream.turn mediaCodec) { conn := {} }
      (deletedTurns ++ [sentCommand (.createStream (some 3) true)])).Counted := by
  decide +kernel

end Counting

end LibRtmp.Proofs
