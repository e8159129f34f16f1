import Mathlib.Data.List.DropRight
import LibRtmp.Lib.Runs
import LibRtmp.Media.InitCache
import LibRtmp.Proofs.Turns

namespace LibRtmp.Proofs

open Actions
open Relation (ReflTransGen)

section Slots

inductive Turnover (asks : Prop) :
    Option PendingAuth × List Nat → Option PendingAuth × List Nat → Prop where
  | same (x : Option PendingAuth × List Nat) : Turnover asks x x
  | resolve (p : PendingAuth) (ids : List Nat) (h : ¬ asks) :
    Turnover asks (some p, ids) (none, rememberResolvedAuthId ids p.requestId)
  | await (p : PendingAuth) (ids : List Nat) (h : asks) (hnew : p.requestId ∉ ids) :
    Turnover asks (none, ids) (some p, ids)

variable {asks : Prop} {x y z : Option PendingAuth × List Nat} {c d : Conn} {role : Role}

theorem Turnover.trans (h : Turnover asks x y) (h' : Turnover asks y z) : Turnover asks x z := by
  cases h with
  | same => exact h'
  | resolve p ids hn =>
    cases h' with
    | same => exact .resolve p ids hn
    | await _ _ ha _ => exact absurd ha hn
  | await p ids ha hnew =>
    cases h' with
    | same => exact .await p ids ha hnew
    | resolve _ _ hn => exact absurd ha hn

theorem Turnover.of_eq (h : y = x) : Turnover asks x y := by
  rw [h]
  exact .same x

def Conn.desk (c : Conn) : PerRole (Option PendingAuth) × PerRole (List Nat) × Nat × UInt32 :=
  (c.pendingAuth, c.resolvedAuthIds, c.activeStreamCount, c.nextStreamId)

theorem slot_of_desk (h : Conn.desk d = Conn.desk c) (role : Role) : d.slot role = c.slot role :=
  congrArg (fun desk => (desk.1.get role, desk.2.1.get role)) h

theorem transition_desk (c : Conn) (new : ConnState) :
    Conn.desk (c.transition new) = Conn.desk c := by
  unfold Conn.transition
  split <;> rfl

theorem refresh_timer_desk (c : Conn) (now : Nat) (wasActive : Bool) :
    Conn.desk (c.refreshSetupTimer now wasActive) = Conn.desk c := by
  unfold Conn.refreshSetupTimer
  split <;> rfl

theorem start_publishing_desk (c : Conn) (now : Nat) (name : String) :
    Conn.desk (c.startPublishing now name) = Conn.desk c := by
  have harm : ∀ c : Conn, ∀ key, Conn.desk (c.armPublishDeadline now key) = Conn.desk c := by
    intro c key
    unfold Conn.armPublishDeadline
    split <;> rfl
  have hreset : ∀ c : Conn, Conn.desk (c.resetDeferredRelay name) = Conn.desk c := by
    intro c
    unfold Conn.resetDeferredRelay
    split
    · split <;> rfl
    · rfl
  exact (transition_desk _ _).trans ((hreset _).trans (harm _ _))

theorem start_playing_desk (c : Conn) (now : Nat) (name : String) :
    Conn.desk (c.startPlaying now name) = Conn.desk c := by
  have hreplay : ∀ c : Conn, Conn.desk (c.requestInitReplay now) = Conn.desk c := by
    intro c
    unfold Conn.requestInitReplay
    split <;> rfl
  refine (transition_desk _ _).trans ?_
  split
  · rfl
  · exact hreplay _

theorem release_deadline_desk (c : Conn) (name : String) :
    Conn.desk (c.releasePublishDeadline name) = Conn.desk c := by
  unfold Conn.releasePublishDeadline
  split <;> rfl

theorem set_paused_desk (c : Conn) (now : Nat) (flag : Bool) :
    Conn.desk (c.setPaused now flag) = Conn.desk c := by
  have hpaused : ∀ s : Stream, Conn.desk (c.refreshPauseTimer now flag s) = Conn.desk c := by
    intro s
    unfold Conn.refreshPauseTimer
    split <;> rfl
  unfold Conn.setPaused
  cases c.currentStream with
  | none => cases flag <;> rfl
  | some s => cases flag <;> exact hpaused s

/-- A request that is dropped is the one of its own role. -/
theorem drop_pending_turnover (c : Conn) (dropped role : Role) (h : dropped = role → ¬ asks) :
    Turnover asks (c.slot role) ((c.dropPendingAuth dropped).slot role) := by
  unfold Conn.dropPendingAuth Conn.slot
  cases hp : c.pendingAuth.get dropped with
  | none => exact .same _
  | some p =>
    by_cases hrole : dropped = role
    · subst hrole
      have hresolve := Turnover.resolve p (c.resolvedAuthIds.get dropped) (h rfl)
      cases dropped
      · rw [hp]
        exact hresolve
      · rw [hp]
        exact hresolve
    · refine .of_eq ?_
      cases dropped <;> cases role <;> first | exact absurd rfl hrole | rfl

theorem drop_both_turnover (c : Conn) (role : Role) (h : ¬ asks) :
    Turnover asks (c.slot role) (c.dropPendingAuthorizations.slot role) :=
  (drop_pending_turnover c .publish role fun _ => h).trans
    (drop_pending_turnover _ .play role fun _ => h)

/-- What a move may do to the waiting request of a role. -/
theorem move_turnover {o : Mandate} (ho : o.ends → ∀ r, ¬ o.asks r) (h : Conn.Move o c d)
    (role : Role) : Turnover (o.asks role) (c.slot role) (d.slot role) := by
  cases h with
  | tidy _ h =>
    refine .of_eq ?_
    unfold Conn.slot
    rw [show d.pendingAuth = c.pendingAuth from congrArg Core.pendingAuth h.1,
      show d.resolvedAuthIds = c.resolvedAuthIds from congrArg Core.resolvedAuthIds h.1]
  | advance new _ => exact .of_eq (slot_of_desk (transition_desk c new) role)
  | drop dropped h =>
    refine drop_pending_turnover c dropped role ?_
    rintro rfl
    exact h
  | await asked p ha hfree hnew =>
    by_cases hrole : asked = role
    · subst hrole
      have hawait := Turnover.await p (c.resolvedAuthIds.get asked) ha hnew
      unfold Conn.slot
      rw [hfree]
      cases asked <;> exact hawait
    · refine .of_eq ?_
      cases asked <;> cases role <;> first | exact absurd rfl hrole | rfl
  | deed _ h =>
    cases h with
    | publish name _ => exact .of_eq (slot_of_desk (start_publishing_desk c _ name) role)
    | play name _ => exact .of_eq (slot_of_desk (start_playing_desk c _ name) role)
    | rearm name _ => exact .of_eq (slot_of_desk (release_deadline_desk c name) role)
    | close h =>
      refine Turnover.trans (.of_eq ?_) (drop_both_turnover _ role (ho h role))
      have hcounted : ∀ d : Conn, (d.refreshSetupTimer o.now c.isActive).slot role = d.slot role :=
        fun d => slot_of_desk (refresh_timer_desk d _ _) role
      exact hcounted _
    | replace count h =>
      refine (drop_both_turnover { c with relayEnabled := false } role (ho h role)).trans (.of_eq ?_)
      have hopened : ∀ d : Conn, ((d.refreshSetupTimer o.now c.isActive).transition
          .streamCreated).slot role = d.slot role := fun d =>
        slot_of_desk ((transition_desk _ _).trans (refresh_timer_desk d _ _)) role
      exact hopened _
    | pause flag _ => exact .of_eq (slot_of_desk (set_paused_desk c _ flag) role)
    | _ => exact .same _
  | _ => exact .same _

theorem mandate_ends {act : ConnAct} (h : (act.mandate c).ends) (r : Role) :
    ¬ (act.mandate c).asks r := by
  change act.command.any Command.endsRole = true at h
  change ¬ act.command.any (fun command => command.asks r) = true
  cases hc : act.command with
  | none => simp
  | some command =>
    rw [hc] at h
    cases command <;> first | exact Bool.noConfusion h | simp [Command.asks]

theorem turn_turnover (codec : Codec) (c : Conn) (routes : Routes) (act : ConnAct) (role : Role) :
    Turnover ((act.mandate c).asks role) (c.slot role) ((c.turn codec routes act).slot role) := by
  have hpath := turn_moves codec c routes act
  generalize c.turn codec routes act = d at hpath
  induction hpath with
  | refl => exact .same _
  | tail _ hs ih => exact ih.trans (move_turnover mandate_ends hs role)

end Slots

section Histories

variable {codec : Codec} {c : Conn} {role : Role} {past : List Nat}

/-- What acts on a connection, with the shared routes as it finds them. -/
abbrev Turns := List (Routes × ConnAct)

def afterTurns (codec : Codec) (c : Conn) (turns : Turns) : Conn :=
  Runs.exec (fun c turn => c.turn codec turn.1 turn.2) c turns

def settledId (role : Role) (c d : Conn) : List Nat :=
  if d.pendingAuth.get role = c.pendingAuth.get role then []
  else (c.pendingAuth.get role).toList.map PendingAuth.requestId

/-- The ids that were answered, denied or discarded for a role, oldest first. -/
def settledIds (codec : Codec) (role : Role) : Conn → Turns → List Nat
  | _, [] => []
  | c, (routes, act) :: turns =>
    settledId role c (c.turn codec routes act) ++
      settledIds codec role (c.turn codec routes act) turns

/-- The ids not accepted are the last ones of a history, and the one waiting is none of them. -/
def Recalls (past : List Nat) (slot : Option PendingAuth × List Nat) : Prop :=
  slot.2 = past.rtake resolvedAuthIdMemory ∧ ∀ p, slot.1 = some p → p.requestId ∉ slot.2

theorem remember_new {id : Nat} (h : id ∉ past.rtake resolvedAuthIdMemory) :
    rememberResolvedAuthId (past.rtake resolvedAuthIdMemory) id =
      (past ++ [id]).rtake resolvedAuthIdMemory := by
  have hlast : ∀ n, (past ++ [id]).rtake (n + 1) = past.rtake n ++ [id] :=
    fun n => List.rtake_concat_succ past n id
  unfold rememberResolvedAuthId
  rw [if_neg h, show resolvedAuthIdMemory = 7 + 1 from rfl, hlast]
  congr 1
  simp only [List.rtake, List.length_drop, List.drop_drop]
  split
  · congr 1
    omega
  · congr 1
    omega

theorem turnover_recalls {asks : Prop} {d : Conn} (h : Recalls past (c.slot role))
    (ht : Turnover asks (c.slot role) (d.slot role)) :
    Recalls (past ++ settledId role c d) (d.slot role) := by
  unfold settledId
  change Recalls (past ++ if (d.slot role).1 = (c.slot role).1 then []
    else (c.slot role).1.toList.map PendingAuth.requestId) (d.slot role)
  generalize c.slot role = x at h ht
  generalize d.slot role = y at ht
  cases ht with
  | same => simpa using h
  | resolve p ids _ =>
    obtain ⟨rfl, hfresh⟩ := h
    refine ⟨?_, fun q hq => nomatch hq⟩
    exact remember_new (hfresh p rfl)
  | await p ids _ hnew =>
    refine ⟨?_, fun q hq => ?_⟩
    · simpa using h.1
    · cases hq
      exact hnew

theorem turns_recall (turns : Turns) (h : Recalls past (c.slot role)) :
    Recalls (past ++ settledIds codec role c turns) ((afterTurns codec c turns).slot role) := by
  induction turns generalizing c past with
  | nil =>
    rw [settledIds, List.append_nil]
    exact h
  | cons turn turns ih =>
    obtain ⟨routes, act⟩ := turn
    have hturn := turnover_recalls h (turn_turnover codec c routes act role)
    rw [settledIds, ← List.append_assoc]
    exact ih hturn

end Histories

section Refusal

variable {h : Host} {role : Role} {name : String} {s : Session} {command : Command}

theorem read_stream_name_admits (ha : Admits s.conn role name) :
    Action.on (readStreamName role (some name)) s = (.ok (some name), s) := by
  unfold readStreamName
  rw [Action.on_bind]
  simp [ha.named, Option.isSome_iff_ne_none.mp ha.stream]

theorem handle_request (hr : Requests command role name) :
    handleCommand h command = handleRequest h role (some name) := by
  cases command with
  | publish asked =>
    cases role with
    | publish => exact congrArg (handleRequest h .publish) hr
    | play => exact hr.elim
  | play asked =>
    cases role with
    | publish => exact hr.elim
    | play => exact congrArg (handleRequest h .play) hr
  | _ => exact hr.elim

/-- A request that needs time is denied if its id was used lately, and waits otherwise. -/
theorem request_pending {requestId : Nat} (hr : Requests command role name)
    (ha : Admits s.conn role name) (hd : h.decision role s.conn name = .pending requestId) :
    Action.on (handleCommand h command) s =
      if requestId ∈ s.conn.resolvedAuthIds.get role then Action.on (sendDenied role) s
      else (.ok (), { s with conn := { s.conn with
        pendingAuth := s.conn.pendingAuth.set role (some ⟨name, h.now, requestId⟩) } }) := by
  rw [handle_request hr]
  unfold handleRequest
  rw [Action.on_bind, read_stream_name_admits ha]
  simp only [requestRole, Action.on_bind, Action.on_get]
  rw [if_neg (by simp [ha.free, ha.unsealed]), hd]
  dsimp only
  split
  · rfl
  · rfl

/-- What follows the handling of a command is work on buffers. -/
theorem command_turn {codec : Codec} {c : Conn} {host : Host} {budget : Nat} (socket : Socket)
    (routes : Routes) (hb : budget ≠ 0) :
    Tidies (Action.on (handleCommand (host.reading codec) command) ⟨c, routes⟩).2.conn
      (c.turn codec routes (.inbound (.message host (.command command) budget socket))) := by
  unfold Conn.turn Session.perform ConnAct.action Inbound.action
  simp only [Action.on_bind, handleMessage, if_neg hb, handleSingle]
  generalize Action.on (handleCommand (host.reading codec) command) ⟨c, routes⟩ = r
  obtain ⟨r, t⟩ := r
  cases r with
  | error e => exact .refl _
  | ok _ =>
    change Tidies t.conn (if t.conn.needsInitFrames then t.conn else (t.conn.flush socket).2)
    split
    · exact .refl _
    · exact flush_tidies _ socket

theorem pending_turn {codec : Codec} {c : Conn} {host : Host} {budget requestId : Nat}
    (socket : Socket) (routes : Routes) (hb : budget ≠ 0) (hr : Requests command role name)
    (ha : Admits c role name) (hd : host.decision role c name = .pending requestId) :
    (c.turn codec routes (.inbound (.message host (.command command) budget socket))).pendingAuth =
      if requestId ∈ c.resolvedAuthIds.get role then c.pendingAuth
      else c.pendingAuth.set role (some ⟨name, host.now, requestId⟩) := by
  have hon := @request_pending (host.reading codec) role name ⟨c, routes⟩ command requestId hr ha hd
  have hturn := @command_turn command codec c host budget socket routes hb
  rw [hon] at hturn
  split at hturn
  · rename_i hold
    rw [if_pos hold]
    exact congrArg Core.pendingAuth ((quiet_denied role ⟨c, routes⟩).2.trans hturn).1
  · rename_i hnew
    rw [if_neg hnew]
    exact congrArg Core.pendingAuth hturn.1

end Refusal

section Reuse

/-- If the host wants time for a request under one of the last eight ids that were answered,
denied or discarded for its role, the request is refused and nothing waits; under any other id it
waits. -/
theorem recent_id_refused (codec : Codec) (start : Conn) (turns : Turns) (routes : Routes)
    (host : Host) (command : Command) (budget : Nat) (socket : Socket) (role : Role)
    (name : String) (requestId : Nat) (hstart : start.slot role = (none, [])) (hb : budget ≠ 0)
    (hr : Requests command role name) (ha : Admits (afterTurns codec start turns) role name)
    (hd : host.decision role (afterTurns codec start turns) name = .pending requestId) :
    (requestId ∈ (settledIds codec role start turns).rtake 8 →
      Action.on (handleCommand (host.reading codec) command)
          ⟨afterTurns codec start turns, routes⟩ =
        Action.on (sendDenied role) ⟨afterTurns codec start turns, routes⟩ ∧
      ((afterTurns codec start turns).turn codec routes
        (.inbound (.message host (.command command) budget socket))).pendingAuth =
          (afterTurns codec start turns).pendingAuth) ∧
    (requestId ∉ (settledIds codec role start turns).rtake 8 →
      ((afterTurns codec start turns).turn codec routes
        (.inbound (.message host (.command command) budget socket))).pendingAuth =
          (afterTurns codec start turns).pendingAuth.set role
            (some ⟨name, host.now, requestId⟩)) := by
  have hfresh : Recalls [] (start.slot role) := by
    rw [hstart]
    exact ⟨rfl, fun _ hp => nomatch hp⟩
  have hrecalls : (afterTurns codec start turns).resolvedAuthIds.get role =
      (settledIds codec role start turns).rtake 8 :=
    (@turns_recall codec start role [] turns hfresh).1
  have hon := @request_pending (host.reading codec) role name
    ⟨afterTurns codec start turns, routes⟩ command requestId hr ha hd
  have hturn := @pending_turn role name command codec _ host budget requestId socket routes hb hr ha
    hd
  rw [hrecalls] at hon hturn
  refine ⟨fun hold => ?_, fun hnew => ?_⟩
  · rw [if_pos hold] at hon hturn
    exact ⟨hon, hturn⟩
  · rw [if_neg hnew] at hturn
    exact hturn

def hesitantHost (requestId : Nat) : Host where
  auth := ⟨some fun _ _ _ => .pending requestId, none⟩

def requestsUnder (requestId : Nat) (command : Command) : ConnAct :=
  .inbound (.message (hesitantHost requestId) (.command command) 10 [])

def streamed : Conn where
  state := .streamCreated
  app := "live"
  nextStreamId := 1
  activeStreamCount := 1
  currentStream := some { streamId := 1 }

def withdrawnTurns (ids : List Nat) : Turns :=
  ids.flatMap (fun id => [(∅, requestsUnder id (.publish (some "cam"))),
    (∅, requestsUnder id .fcUnpublish)])

/-- The first of two ids that were discarded is refused. -/
theorem discarded_id_refused :
    let c := afterTurns mediaCodec streamed (withdrawnTurns [1, 2])
    Action.on (handleCommand ((hesitantHost 1).reading mediaCodec) (.publish (some "cam")))
        ⟨c, ∅⟩ = Action.on (sendDenied .publish) ⟨c, ∅⟩ ∧
      (c.turn mediaCodec ∅ (requestsUnder 1 (.publish (some "cam")))).pendingAuth =
        c.pendingAuth := by
  refine (recent_id_refused mediaCodec streamed (withdrawnTurns [1, 2]) ∅ (hesitantHost 1)
    (.publish (some "cam")) 10 [] .publish "cam" 1 rfl (by decide) rfl ?_ rfl).1 ?_
  all_goals decide +kernel

/-- The ninth id to be discarded makes room for the first: it is accepted again. -/
theorem ninth_id_forgets_first :
    settledIds mediaCodec .publish streamed (withdrawnTurns [1, 2, 3, 4, 5, 6, 7, 8, 9]) =
        [1, 2, 3, 4, 5, 6, 7, 8, 9] ∧
      ((afterTurns mediaCodec streamed (withdrawnTurns [1, 2, 3, 4, 5, 6, 7, 8, 9])).turn mediaCodec ∅
        (requestsUnder 1 (.publish (some "cam")))).pendingAuth.publish.map PendingAuth.requestId =
          some 1 := by
  decide +kernel

end Reuse

end LibRtmp.Proofs
