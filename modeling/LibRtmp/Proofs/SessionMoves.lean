import LibRtmp.Session.Turn
import LibRtmp.Proofs.RouteMoves
import LibRtmp.Proofs.Sends

namespace LibRtmp.Proofs

open Actions
open Relation (ReflTransGen)

variable {m : PeerMessage} {budget : Nat} {role : Role} {name : String} (c : Conn) (routes : Routes)
    (now : Nat)

section Quiet

variable {α β : Type}

def Untold (s t : Session) : Prop := t.ledger = s.ledger ∧ Tidies s.conn t.conn

theorem untold_blind : OutputBlind Untold where
  refl s := ⟨rfl, .refl s.conn⟩
  trans h h' := ⟨h'.1.trans h.1, h.2.trans h'.2⟩
  sends _ _ := ⟨rfl, rfl, .inl rfl⟩
  announces _ _ := ⟨rfl, rfl, .inl rfl⟩

def Quiet (m : ConnM α) : Prop := Confined Untold m

theorem quiet_pure (a : α) : Quiet (pure a) := confined_pure untold_blind a

theorem quiet_get : Quiet (get : ConnM Session) := confined_get untold_blind

theorem quiet_bind {m : ConnM α} {f : α → ConnM β} (hm : Quiet m) (hf : ∀ a, Quiet (f a)) :
    Quiet (m >>= f) := confined_bind untold_blind hm hf

theorem quiet_attempt {m : ConnM α} (hm : Quiet m) : Quiet (attempt m) := fun s => hm s

theorem quiet_control (ty : UInt8) (data : List UInt8) : Quiet (sendControl ty data) :=
  confined_control untold_blind ty data

theorem quiet_command (msgStreamId : UInt32) (amf : List UInt8) :
    Quiet (sendCommand msgStreamId amf) := confined_command untold_blind msgStreamId amf

theorem quiet_user_control (event : Nat) (params : List UInt32) :
    Quiet (sendUserControl event params) := confined_user_control untold_blind event params

theorem quiet_status (streamId : UInt32) (level code description : String) :
    Quiet (sendOnStatus streamId level code description) :=
  confined_status untold_blind streamId level code description

theorem quiet_error (txn : UInt64) (code description : String) :
    Quiet (sendCommandError txn code description) := confined_error untold_blind txn code description

theorem quiet_denied (role : Role) : Quiet (sendDenied role) := confined_denied untold_blind role

theorem quiet_connect_response (txn : UInt64) (caps : Option Ertmp.NegotiatedCaps) :
    Quiet (sendConnectResponse txn caps) := confined_connect_response untold_blind txn caps

theorem quiet_lifecycle_begin (sid : UInt32) : Quiet (sendStreamLifecycleBegin sid) :=
  confined_lifecycle_begin untold_blind sid

end Quiet

section Walks

variable {α : Type} {step : Ledger → Ledger → Prop} {o : Mandate} {m : ConnM α} {s : Session}
  {Q : α → Session → Prop}

def Passes (step : Ledger → Ledger → Prop) (o : Mandate) (s t : Session) : Prop :=
  ReflTransGen step s.ledger t.ledger ∧ ReflTransGen (Conn.Move o) s.conn t.conn

abbrev Walks (step : Ledger → Ledger → Prop) (o : Mandate) (m : ConnM α) (s : Session)
    (Q : α → Session → Prop) : Prop :=
  Moves id (Passes step o) m s Q

theorem Walks.passes (h : Walks step o m s Q) : Passes step o s (m.on s).2 := by
  have hpath : ReflTransGen (Passes step o) s (m.on s).2 := h.path
  generalize (m.on s).2 = t at hpath
  induction hpath with
  | refl => exact ⟨.refl, .refl⟩
  | tail _ hs ih => exact ⟨ih.1.trans hs.1, ih.2.trans hs.2⟩

theorem Walks.ledger (h : Walks step o m s Q) : Moves Session.ledger step m s Q :=
  ⟨(Walks.passes h).1, h.post⟩

theorem Walks.along {step' : Ledger → Ledger → Prop} (h : Walks step o m s Q)
    (hstep : ∀ l l', step l l' → step' l l') : Walks step' o m s Q :=
  Moves.mono h fun _ _ hp => ⟨ReflTransGen.mono hstep _ _ hp.1, hp.2⟩

theorem Quiet.walks (hm : Quiet m) (h : ∀ a t, Held s t → Q a t) : Walks step o m s Q :=
  ⟨.single ⟨(hm s).1 ▸ .refl, .single (.tidy _ (hm s).2)⟩,
    fun a _ => h a _ (held_of_tidies (hm s).2)⟩

theorem quiet_walks (hm : Quiet m) : Walks step o m s (fun _ _ => True) :=
  hm.walks fun _ _ _ => trivial

theorem walks_modify {f : Session → Session} {Q : Unit → Session → Prop}
    (hp : ReflTransGen step s.ledger (f s).ledger) (ht : Tidies s.conn (f s).conn)
    (h : Q () (f s)) : Walks step o (modify f) s Q :=
  moves_modify (.single ⟨hp, .single (.tidy _ ht)⟩) h

theorem walks_conn {f : Conn → Conn} {Q : Unit → Session → Prop}
    (hp : ReflTransGen step s.ledger (Session.ledger ⟨f s.conn, s.routes⟩))
    (hm : Conn.Move o s.conn (f s.conn)) (h : Q () ⟨f s.conn, s.routes⟩) :
    Walks step o (modifyConn f) s Q :=
  moves_modify (.single ⟨hp, .single hm⟩) h

theorem walks_unseen {f : Conn → Conn} {Q : Unit → Session → Prop}
    (hl : Session.ledger ⟨f s.conn, s.routes⟩ = s.ledger) (hm : Conn.Move o s.conn (f s.conn))
    (h : Q () ⟨f s.conn, s.routes⟩) : Walks step o (modifyConn f) s Q :=
  walks_conn (hl ▸ .refl) hm h

end Walks

section Handlers

variable {cause : Cause} {o : Mandate} {s : Session} {h : Host}

/-- A state past the `connect` is never left again. -/
theorem transition_ledger {new : ConnState}
    (h : ConnState.appConnected ≤ new) :
    Session.ledger ⟨c.transition new, routes⟩ =
      { Session.ledger ⟨c, routes⟩ with joined := true } := by
  unfold Conn.transition connTransition
  dsimp only
  split
  · rename_i st hst
    split at hst
    · cases hst
    · cases hst
      simp [Session.ledger, h]
  · rename_i hst
    split at hst
    · rename_i hback
      have hj : ConnState.appConnected ≤ c.state :=
        Nat.le_of_lt (Nat.lt_of_le_of_lt h hback.2)
      simp [Session.ledger, hj]
    · cases hst

theorem transition_path (hc : cause.claims) (c : Conn) (routes : Routes) {new : ConnState}
    (h : ConnState.appConnected ≤ new) :
    Path cause (Session.ledger ⟨c, routes⟩) (Session.ledger ⟨c.transition new, routes⟩) := by
  rw [transition_ledger c routes h]
  exact .single (.advance hc)

theorem drop_pending_path (cause : Cause) (c : Conn) (routes : Routes) (role : Role) :
    Path cause (Session.ledger ⟨c, routes⟩) (Session.ledger ⟨c.dropPendingAuth role, routes⟩) ∧
      Held ⟨c, routes⟩ ⟨c.dropPendingAuth role, routes⟩ := by
  unfold Conn.dropPendingAuth
  split
  · exact ⟨.refl, .refl _⟩
  · exact ⟨.single (.forget role), rfl, rfl, rfl⟩

theorem drop_both_path (cause : Cause) (c : Conn) (routes : Routes) :
    Path cause (Session.ledger ⟨c, routes⟩)
        (Session.ledger ⟨c.dropPendingAuthorizations, routes⟩) ∧
      Held ⟨c, routes⟩ ⟨c.dropPendingAuthorizations, routes⟩ := by
  obtain ⟨hp, hh⟩ := drop_pending_path cause c routes .publish
  obtain ⟨hp', hh'⟩ := drop_pending_path cause (c.dropPendingAuth .publish) routes .play
  exact ⟨hp.trans hp', hh.trans hh'⟩

/-- A publish under `name` makes a deferring connection drop the frames it has queued. -/
def DefersAway (c : Conn) (name : String) : Prop :=
  c.deferMediaRelay = true ∧
    (c.isPlaying ∨ (c.isPublishing ∧ c.currentStream.all (fun s => s.name ≠ name)))

instance (c : Conn) (name : String) : Decidable (DefersAway c name) :=
  inferInstanceAs (Decidable (_ ∧ _))

theorem Held.defers_away {s t : Session} {name : String} (hh : Held s t)
    (h : DefersAway t.conn name) : DefersAway s.conn name := by
  obtain ⟨hs, hd, _⟩ := hh
  unfold DefersAway Conn.isPlaying Conn.isPublishing at h ⊢
  rwa [hs, hd] at h

theorem arm_deadline_quiet (key : String) :
    Session.ledger ⟨c.armPublishDeadline now key, routes⟩ = Session.ledger ⟨c, routes⟩ ∧
      Held ⟨c, routes⟩ ⟨c.armPublishDeadline now key, routes⟩ := by
  unfold Conn.armPublishDeadline
  split
  · exact ⟨rfl, rfl, rfl, rfl⟩
  · exact ⟨rfl, .refl _⟩

theorem reset_deferred_path {c : Conn} {name : String} (hd : DefersAway c name → cause.discards)
    (routes : Routes) :
    Path cause (Session.ledger ⟨c, routes⟩)
      (Session.ledger ⟨c.resetDeferredRelay name, routes⟩) := by
  unfold Conn.resetDeferredRelay
  split
  · rename_i hdefer
    split
    · rename_i haway
      exact .single (.discard (hd ⟨hdefer, haway⟩))
    · exact .refl
  · exact .refl

theorem view_take_role (s : Stream) (role : Role) (name : String) :
    (s.takeRole role name).view = s.view.takeRole role name := by
  cases role <;> rfl

theorem take_role_path {c : Conn} {role : Role} {name : String} (h : cause.permits role name)
    (routes : Routes) :
    Path cause (Session.ledger ⟨c, routes⟩) (Session.ledger ⟨c.takeRole role name, routes⟩) := by
  have hview : (c.currentStream.map (fun s => s.takeRole role name)).map Stream.view =
      (c.currentStream.map Stream.view).map (fun v => v.takeRole role name) := by
    rw [Option.map_map, Option.map_map]
    congr 1
    funext s
    exact view_take_role s role name
  have hstep := Ledger.Step.grant (l := Session.ledger ⟨c, routes⟩) role name h
  change Ledger.Step cause _ { Session.ledger ⟨c, routes⟩ with
    stream := (c.currentStream.map Stream.view).map (fun v => v.takeRole role name) } at hstep
  rw [← hview] at hstep
  exact .single hstep

theorem start_publishing_path {c : Conn} {name : String} (hc : cause.claims)
    (hp : cause.permits .publish name) (hd : DefersAway c name → cause.discards) (now : Nat)
    (routes : Routes) :
    Path cause (Session.ledger ⟨c, routes⟩)
      (Session.ledger ⟨c.startPublishing now name, routes⟩) := by
  obtain ⟨harm, hh⟩ := arm_deadline_quiet c routes now (c.nextRouteKey name)
  have hreset := reset_deferred_path (fun haway => hd (hh.defers_away haway)) routes
  rw [harm] at hreset
  exact (hreset.trans (take_role_path hp routes)).trans (transition_path hc _ routes (by decide))

theorem deny_pending_walks (ha : ¬ o.asks role) :
    Walks (Ledger.Step cause) o (denyPendingAuth role) s (fun _ t => Held s t) := by
  unfold denyPendingAuth
  refine moves_bind (moves_get ?_)
  split
  · exact moves_pure (.refl s)
  · obtain ⟨hp, hh⟩ := drop_pending_path cause s.conn s.routes role
    refine moves_bind (walks_conn hp (.drop role ha) ?_)
    exact (quiet_denied role).walks fun _ _ hh' => hh.trans hh'

structure Entitles (cause : Cause) (c : Conn) (role : Role) (name : String) : Prop where
  permits : cause.permits role name
  claims : cause.claims
  discards : role = .publish → DefersAway c name → cause.discards

theorem complete_publish_walks (he : Entitles cause s.conn .publish name)
    (hn : h.now = o.now) (ha : ¬ o.asks .play) (hg : o.grants .publish name) :
    Walks (Ledger.Step cause) o (completePublishAuthorized h name) s (fun _ _ => True) := by
  obtain ⟨hclaim, htidies⟩ := claim_for_publish_path cause he.claims name s
  unfold completePublishAuthorized
  refine moves_bind (moves_modify_get (.single ⟨hclaim, .single (.tidy _ htidies)⟩) ?_)
  have hheld : Held s (s.claimForPublish name).2 := held_of_tidies htidies
  generalize s.claimForPublish name = r at hheld
  obtain ⟨outcome, t⟩ := r
  cases outcome with
  | contended => exact quiet_walks (quiet_status _ _ _ _)
  | evictionQueueFull => exact quiet_walks (quiet_status _ _ _ _)
  | claimed =>
    refine moves_bind ((deny_pending_walks ha).weaken ?_)
    intro _ u hu
    have hstart := start_publishing_path he.claims he.permits
      (fun haway => he.discards rfl ((hheld.trans hu).defers_away haway)) h.now u.routes
    refine moves_bind (walks_conn hstart ?_ ?_)
    · rw [hn]
      exact .deed _ (.publish name hg)
    · exact moves_bind (moves_get (quiet_walks (quiet_status _ _ _ _)))

theorem start_playing_path {c : Conn} {name : String} (hc : cause.claims)
    (hp : cause.permits .play name) (now : Nat) (routes : Routes) :
    Path cause (Session.ledger ⟨c, routes⟩) (Session.ledger ⟨c.startPlaying now name, routes⟩) := by
  refine (take_role_path hp routes).trans (ReflTransGen.trans ?_ (transition_path hc _ routes
    (by decide)))
  split
  · exact .refl
  · unfold Conn.requestInitReplay
    split <;> exact .refl

theorem complete_play_walks (he : Entitles cause s.conn .play name)
    (hn : h.now = o.now) (ha : ¬ o.asks .publish) (hg : o.grants .play name) :
    Walks (Ledger.Step cause) o (completePlayAuthorized h name) s (fun _ _ => True) := by
  unfold completePlayAuthorized
  refine moves_bind ((deny_pending_walks ha).weaken fun _ t _ => ?_)
  refine moves_bind (walks_conn ?_ ?_ ?_)
  · split <;> exact .refl
  · split
    · exact .tidy _ (.refl _)
    · rename_i hdefer
      exact .deed _ (.enable (by simpa using hdefer))
  refine moves_bind (walks_modify (evict_active_path cause _).1 (evict_active_path cause _).2 ?_)
  refine moves_bind (walks_conn (start_playing_path he.claims he.permits h.now _) ?_ ?_)
  · rw [hn]
    exact .deed _ (.play name hg)
  refine moves_bind (moves_get ?_)
  refine moves_bind ((quiet_status _ _ _ _).walks fun _ _ _ => ?_)
  exact quiet_walks (quiet_lifecycle_begin _)

theorem complete_authorized_walks
    (he : Entitles cause s.conn role name) (hn : h.now = o.now) (ha : ∀ r, o.asks r → r = role)
    (hg : o.grants role name) :
    Walks (Ledger.Step cause) o (completeAuthorized h role name) s (fun _ _ => True) := by
  cases role with
  | publish => exact complete_publish_walks he hn (fun h => Role.noConfusion (ha .play h)) hg
  | play => exact complete_play_walks he hn (fun h => Role.noConfusion (ha .publish h)) hg

theorem release_deadline_quiet (name : String) :
    Session.ledger ⟨c.releasePublishDeadline name, routes⟩ = Session.ledger ⟨c, routes⟩ ∧
      Held ⟨c, routes⟩ ⟨c.releasePublishDeadline name, routes⟩ := by
  unfold Conn.releasePublishDeadline
  split <;> exact ⟨rfl, rfl, rfl, rfl⟩

structure Decrees (o : Mandate) (h : Host) (allow : Bool) : Prop where
  silent : ∀ r, ¬ o.asks r
  now : allow = true → h.now = o.now
  late : allow = true → o.late

theorem apply_decision_walks {allow : Bool}
    (ho : Decrees o h allow) (he : allow = true → Entitles cause s.conn role name)
    (hg : allow = true → o.grants role name) :
    Walks (Ledger.Step cause) o (applyDecision h role name allow) s (fun _ _ => True) := by
  unfold applyDecision
  split
  · rename_i hallow
    obtain ⟨hpermits, hclaims, hdiscards⟩ := he hallow
    have hsilent : ∀ r, o.asks r → r = role := fun r hr => absurd hr (ho.silent r)
    dsimp only
    split
    · rename_i hpub
      obtain ⟨hquiet, hheld⟩ := release_deadline_quiet s.conn s.routes name
      refine moves_bind (walks_unseen hquiet (.deed _ (.rearm name (ho.late hallow))) ?_)
      exact complete_authorized_walks
        ⟨hpermits, hclaims, fun _ haway => hdiscards hpub (hheld.defers_away haway)⟩
        (ho.now hallow) hsilent (hg hallow)
    · rename_i hplay
      exact complete_authorized_walks ⟨hpermits, hclaims, fun hpub => absurd hpub hplay⟩
        (ho.now hallow) hsilent (hg hallow)
  · exact quiet_walks (quiet_denied role)

theorem complete_authorization_walks {requestId : Nat} {allow : Bool}
    (ho : Decrees o h allow)
    (he : ∀ p, s.conn.pendingAuth.get role = some p → p.requestId = requestId → allow = true →
      Entitles cause s.conn role p.streamName ∧ o.grants role p.streamName) :
    Walks (Ledger.Step cause) o (completeAuthorization h role requestId allow) s
      (fun _ _ => True) := by
  unfold completeAuthorization
  refine moves_bind (moves_get ?_)
  split
  · exact moves_pure trivial
  · rename_i p hp
    split
    · exact moves_pure trivial
    · rename_i hid
      have he := he p hp (not_ne_iff.mp hid)
      obtain ⟨hdrop, hheld⟩ := drop_pending_path cause s.conn s.routes role
      refine moves_bind (walks_conn hdrop (.drop role (ho.silent role)) (apply_decision_walks ho ?_
        fun hallow => (he hallow).2))
      intro hallow
      obtain ⟨⟨hpermits, hclaims, hdiscards⟩, _⟩ := he hallow
      exact ⟨hpermits, hclaims, fun hpub haway => hdiscards hpub (hheld.defers_away haway)⟩

theorem reap_role_walks (ha : ∀ r, ¬ o.asks r) (h : Host) (timeout : Nat) (role : Role) :
    Walks (Ledger.Step cause) o (reapTimedOutRole h timeout role) s (fun _ _ => True) := by
  unfold reapTimedOutRole
  refine moves_bind (moves_get ?_)
  split
  · exact moves_pure trivial
  · rename_i p hp
    split
    · refine moves_bind (walks_unseen rfl (.bar role) ?_)
      have hdenies : Decrees o h false := ⟨ha, Bool.noConfusion, Bool.noConfusion⟩
      exact moves_bind (moves_attempt (complete_authorization_walks hdenies fun _ _ _ =>
        Bool.noConfusion) (moves_pure trivial))
    · exact moves_pure trivial

theorem reap_walks (ha : ∀ r, ¬ o.asks r) (h : Host) (timeout : Nat) :
    Walks (Ledger.Step cause) o (reapTimedOutPendingAuth h timeout) s (fun _ _ => True) := by
  unfold reapTimedOutPendingAuth
  refine moves_bind ((reap_role_walks ha h timeout .publish).weaken fun _ _ _ => ?_)
  exact moves_bind ((reap_role_walks ha h timeout .play).weaken fun _ _ _ => moves_pure trivial)

theorem enter_app_ledger (app : String)
    (output : Ertmp.ConnectOutput) : Session.ledger ⟨c.enterApp app output, routes⟩ =
      { Session.ledger ⟨c, routes⟩ with app, joined := true } := by
  unfold Conn.enterApp
  rw [transition_ledger _ _ (by decide)]
  split
  · unfold Conn.transition
    split <;> rfl
  · rfl

theorem enter_app_moves {c : Conn} (app : String) (output : Ertmp.ConnectOutput)
    (h : c.state < .appConnected) : ReflTransGen (Conn.Move o) c (c.enterApp app output) := by
  have hentered : ReflTransGen (Conn.Move o) c { c with app } := .single (.enter app h)
  have hlast : ∀ d, ReflTransGen (Conn.Move o) c d → ReflTransGen (Conn.Move o) c
      ({ d with connectObjectEncoding := UInt64.ofNat output.objectEncoding }.transition
        .appConnected) := by
    intro d hd
    have hnoted : Conn.Move o d
        { d with connectObjectEncoding := UInt64.ofNat output.objectEncoding } :=
      .tidy _ ⟨rfl, .inl rfl⟩
    exact (hd.tail hnoted).tail (.advance .appConnected (by decide))
  refine hlast _ ?_
  split
  · exact (hentered.tail (.advance .capsNegotiated (by decide))).tail (.tidy _ ⟨rfl, .inl rfl⟩)
  · exact hentered

theorem connect_walks (request : Except UInt64 ConnectRequest) :
    Walks (Ledger.Step cause) o (handleConnect request) s (fun _ _ => True) := by
  unfold handleConnect
  refine moves_bind (moves_get ?_)
  split
  · exact moves_pure trivial
  · rename_i hj
    have hjoined : s.ledger.joined = false := decide_eq_false hj
    have hearly : s.conn.state < .appConnected := Nat.not_le.mp hj
    split
    · exact quiet_walks (quiet_error _ _ _)
    · split
      · exact quiet_walks (quiet_error _ _ _)
      · split
        · rename_i app happ
          have hledger : Session.ledger ⟨{ s.conn with app }, s.routes⟩ =
              { s.ledger with app, joined := decide (app ≠ "") } := by
            subst happ
            simp [Session.ledger, hj]
          refine moves_bind (walks_conn ?_ (.enter _ hearly) (quiet_walks (quiet_error _ _ _)))
          exact hledger ▸ .single (.enter app hjoined)
        · rename_i app happ
          have hledger : ∀ output, Session.ledger ⟨s.conn.enterApp app output, s.routes⟩ =
              { s.ledger with app, joined := decide (app ≠ "") } := by
            intro output
            rw [enter_app_ledger, decide_eq_true happ]
          refine moves_bind (moves_modify (.single ⟨?_, enter_app_moves _ _ hearly⟩)
            (quiet_walks (quiet_connect_response _ _)))
          exact hledger _ ▸ .single (.enter app hjoined)

theorem refresh_timer_quiet (wasActive : Bool) :
    Session.ledger ⟨c.refreshSetupTimer now wasActive, routes⟩ = Session.ledger ⟨c, routes⟩ := by
  unfold Conn.refreshSetupTimer
  split <;> rfl

theorem open_stream_path {c : Conn} (hj : ConnState.appConnected ≤ c.state) (routes : Routes)
    (now : Nat) (wasActive : Bool) (count : Nat) :
    Path cause (Session.ledger ⟨c, routes⟩)
      (Session.ledger ⟨c.openStream now wasActive count, routes⟩) := by
  obtain ⟨hp, hh⟩ := drop_both_path cause { c with relayEnabled := false } routes
  unfold Conn.openStream
  dsimp only
  generalize Conn.dropPendingAuthorizations { c with relayEnabled := false } = d at hp hh
  have hjoined : (Session.ledger ⟨d, routes⟩).joined = true :=
    decide_eq_true (hh.2.2.symm ▸ hj)
  refine ReflTransGen.tail hp ?_
  rw [transition_ledger _ _ (by decide), refresh_timer_quiet]
  have hstep : Ledger.Step cause (Session.ledger ⟨d, routes⟩) _ :=
    .openStream (d.nextStreamId + 1) hjoined
  rw [hjoined] at hstep
  exact hstep

theorem create_stream_walks (hn : h.now = o.now) (he : o.ends) (txn : Option UInt64)
    (parsed : Bool) :
    Walks (Ledger.Step cause) o (handleCreateStream h txn parsed) s (fun _ _ => True) := by
  unfold handleCreateStream
  refine moves_bind (moves_get ?_)
  split
  · exact quiet_walks (quiet_status _ _ _ _)
  · rename_i hj
    have hj : ConnState.appConnected ≤ s.conn.state := Nat.not_lt.mp hj
    split
    · exact quiet_walks (quiet_status _ _ _ _)
    · split
      · exact quiet_walks (quiet_error _ _ _)
      · split
        · exact quiet_walks (quiet_error _ _ _)
        · obtain ⟨hp, hevict⟩ := evict_active_path cause s
          have hheld : Held s s.evictActivePublishRoute := held_of_tidies hevict
          refine moves_bind (walks_modify hp hevict ?_)
          refine moves_bind (walks_conn
            (open_stream_path (hheld.2.2.symm ▸ hj) _ h.now s.conn.isActive _) ?_ ?_)
          · rw [hn, ← hevict.routine.active]
            exact .deed _ (.replace _ he)
          · exact moves_bind (moves_get (quiet_walks (quiet_command _ _)))

/-- The stream name of a request is returned only when there is a stream to put it on. -/
theorem read_stream_name_walks (role : Role) (name : Option String) :
    Walks (Ledger.Step cause) o (readStreamName role name) s
      (fun r t => ∀ n, r = some n →
        t = s ∧ name = some n ∧ n ≠ "" ∧ s.conn.currentStream.isSome = true) := by
  obtain ⟨⟨hsame, htidies⟩, hpost⟩ := confined_read_stream_name untold_blind role name s
  refine ⟨.single ⟨hsame ▸ .refl, .single (.tidy _ htidies)⟩, ?_⟩
  rintro _ hr n rfl
  exact hpost n hr

structure Decides (cause : Cause) (h : Host) (c : Conn) (role : Role) (name : String) : Prop where
  allowed : h.decision role c name = .allow → Entitles cause c role name
  asked : ∀ requestId, h.decision role c name = .pending requestId →
    cause.asks role name requestId

/-- A request is granted, refused or put to the host. -/
theorem request_walks {name : Option String}
    (hd : ∀ n, name = some n → Admits s.conn role n → Decides cause h s.conn role n)
    (hn : h.now = o.now) (ha : ∀ r, o.asks r ↔ r = role)
    (hg : ∀ n, name = some n → Admits s.conn role n → h.decision role s.conn n = .allow →
      o.grants role n) :
    Walks (Ledger.Step cause) o (handleRequest h role name) s (fun _ _ => True) := by
  unfold handleRequest
  refine moves_bind ((read_stream_name_walks role name).weaken ?_)
  intro r t hr
  cases r with
  | none => exact moves_pure trivial
  | some n =>
    obtain ⟨rfl, hname, hne, hs⟩ := hr n rfl
    unfold requestRole
    refine moves_bind (moves_get ?_)
    split
    · exact quiet_walks (quiet_denied role)
    · rename_i hfree
      rw [not_or, Bool.not_eq_true, Option.isSome_eq_false_iff, Option.isNone_iff_eq_none,
        Bool.not_eq_true] at hfree
      have hadmits : Admits t.conn role n := ⟨hne, hs, hfree.1, hfree.2⟩
      have hdecides := hd n hname hadmits
      split
      · rename_i hallow
        exact complete_authorized_walks (hdecides.allowed hallow) hn (fun r => (ha r).mp)
          (hg n hname hadmits hallow)
      · exact quiet_walks (quiet_denied role)
      · rename_i requestId hpending
        split
        · exact quiet_walks (quiet_denied role)
        · rename_i hnew
          refine walks_conn (.single (.wait role _ ?_ hfree.1 ?_))
            (.await role _ ((ha role).mpr rfl) hfree.1 (by simpa using hnew)) trivial
          · exact hdecides.asked requestId hpending
          · simpa [Session.ledger] using hs

theorem end_role_path (wasActive : Bool) :
    Path cause (Session.ledger ⟨c, routes⟩)
      (Session.ledger ⟨c.endRole now wasActive, routes⟩) := by
  have hidle : Path cause (Session.ledger ⟨c, routes⟩) (Session.ledger
      ⟨{ c with currentStream := c.currentStream.map Stream.endRole }, routes⟩) := by
    have hstep : Ledger.Step cause (Session.ledger ⟨c, routes⟩) { Session.ledger ⟨c, routes⟩ with
        stream := (c.currentStream.map Stream.view).map StreamView.idle } := .idle
    have hview : (c.currentStream.map Stream.endRole).map Stream.view =
        (c.currentStream.map Stream.view).map StreamView.idle := by
      rw [Option.map_map, Option.map_map]
      rfl
    rw [← hview] at hstep
    exact .single hstep
  unfold Conn.endRole
  dsimp only
  refine hidle.trans (ReflTransGen.trans ?_ (drop_both_path cause _ routes).1)
  unfold Conn.refreshSetupTimer
  split <;> exact .refl

theorem teardown_walks (hn : h.now = o.now) (he : o.ends) (eof : Option UInt32) :
    Walks (Ledger.Step cause) o (teardownStream h eof) s (fun _ _ => True) := by
  obtain ⟨hp, hevict⟩ := evict_active_path cause s
  unfold teardownStream
  refine moves_bind (moves_get ?_)
  refine moves_bind (walks_modify hp hevict ?_)
  refine moves_bind (walks_conn (end_role_path _ _ h.now s.conn.isActive) ?_ ?_)
  · rw [hn, ← hevict.routine.active]
    exact .deed _ (.close he)
  · split
    · exact moves_pure trivial
    · exact moves_bind (moves_attempt (quiet_walks (quiet_user_control _ _)) (moves_pure trivial))

theorem release_stream_path (h : Host) (name : String) (s : Session) :
    Path cause s.ledger (s.releaseStream h name).ledger := by
  unfold Session.releaseStream Routes.forceRelease
  dsimp only
  split
  · split
    · refine .single (.revoke _ ?_)
      intro k d hk
      rw [Maps.lookup_erase, Maps.lookup_erase] at hk
      exact hk.2.2
    · refine .single (.revoke _ ?_)
      intro k d hk
      rw [Maps.lookup_erase] at hk
      exact hk.2
  · exact .refl

theorem release_stream_conn (h : Host) (name : String) (s : Session) :
    (s.releaseStream h name).conn = s.conn := by
  unfold Session.releaseStream
  dsimp only
  split
  · split <;> rfl
  · rfl

theorem set_paused_quiet (flag : Bool) :
    Session.ledger ⟨c.setPaused now flag, routes⟩ = Session.ledger ⟨c, routes⟩ := by
  unfold Conn.setPaused
  cases hs : c.currentStream with
  | none => cases flag <;> rfl
  | some st =>
    have htimer : c.refreshPauseTimer now flag st = c ∨ c.refreshPauseTimer now flag st =
        { c with sessionSetupStarted := now, pauseGraceMediaBytesSent := c.mediaBytesSent } := by
      unfold Conn.refreshPauseTimer
      split
      · exact .inr rfl
      · exact .inl rfl
    rcases htimer with ht | ht <;> cases flag <;> simp [Session.ledger, hs, ht, Stream.view]

theorem set_receive_quiet (frameType : FrameType) (flag : Bool) :
    Session.ledger ⟨c.setReceive frameType flag, routes⟩ = Session.ledger ⟨c, routes⟩ := by
  have hview : (c.currentStream.map (fun s => s.setReceive frameType flag)).map Stream.view =
      c.currentStream.map Stream.view := by
    rw [Option.map_map]
    congr 1
    funext s
    simp only [Function.comp_apply, Stream.setReceive]
    split <;> rfl
  unfold Session.ledger Conn.setReceive
  dsimp only
  rw [hview]

structure Obeys (o : Mandate) (c : Conn) (h : Host) (command : Command) : Prop where
  now : h.now = o.now
  asks : ∀ role, o.asks role ↔ command.asks role = true
  ends : command.endsRole = true → o.ends
  pauses : ∀ flag, command = .pause (some flag) → o.pauses flag
  selects : command.selects = true → o.selects
  grants : ∀ role n, Requests command role n → Admits c role n →
    h.decision role c n = .allow → o.grants role n

/-- Whatever the command, the ledger moves by steps that its cause allows. -/
theorem command_walks {command : Command}
    (hd : ∀ role n, Requests command role n → Admits s.conn role n → Decides cause h s.conn role n)
    (ho : Obeys o s.conn h command) :
    Walks (Ledger.Step cause) o (handleCommand h command) s (fun _ _ => True) := by
  cases command with
  | connect info => exact connect_walks info
  | createStream txn parsed => exact create_stream_walks ho.now (ho.ends rfl) txn parsed
  | publish name =>
    refine request_walks (hd .publish) ho.now (fun r => (ho.asks r).trans ?_) (ho.grants .publish)
    cases r <;> simp [Command.asks]
  | play name =>
    refine request_walks (hd .play) ho.now (fun r => (ho.asks r).trans ?_) (ho.grants .play)
    cases r <;> simp [Command.asks]
  | fcUnpublish => exact moves_bind (moves_get (teardown_walks ho.now (ho.ends rfl) _))
  | deleteStream => exact moves_bind (moves_get (teardown_walks ho.now (ho.ends rfl) _))
  | fcPublish => exact moves_pure trivial
  | releaseStream name =>
    cases name with
    | none => exact moves_pure trivial
    | some name =>
      simp only [handleCommand]
      split
      · exact moves_pure trivial
      · refine walks_modify (release_stream_path h name s) ?_ trivial
        rw [release_stream_conn]
        exact .refl _
  | pause flag =>
    cases flag with
    | none => exact moves_pure trivial
    | some flag =>
      refine moves_bind (walks_unseen (set_paused_quiet _ _ _ _) ?_ (moves_bind (moves_get ?_)))
      · rw [ho.now]
        exact .deed _ (.pause flag (ho.pauses flag rfl))
      · split <;> exact quiet_walks (quiet_status _ _ _ _)
  | seek => exact moves_bind (moves_get (quiet_walks (quiet_status _ _ _ _)))
  | receiveAudio flag =>
    cases flag with
    | none => exact moves_pure trivial
    | some flag =>
      simp only [handleCommand]
      exact walks_unseen (set_receive_quiet _ _ _ _)
        (.deed _ (.select .audio flag (ho.selects rfl))) trivial
  | receiveVideo flag =>
    cases flag with
    | none => exact moves_pure trivial
    | some flag =>
      simp only [handleCommand]
      exact walks_unseen (set_receive_quiet _ _ _ _)
        (.deed _ (.select .video flag (ho.selects rfl))) trivial
  | closeStream target =>
    unfold handleCommand
    refine moves_bind (moves_get ?_)
    dsimp only
    split
    · exact teardown_walks ho.now (ho.ends rfl) _
    · exact moves_pure trivial
  | unknown => exact moves_pure trivial

theorem queue_walks {frameType : FrameType} {timestamp : UInt32} {payload : List UInt8}
    {cachePayload : Option (List UInt8)} (h : cause.injects ∨ s.ledger.Publishes) :
    Walks (Ledger.Queues cause) o
      (queueRelayFrame frameType timestamp payload cachePayload) s (fun _ _ => True) := by
  unfold queueRelayFrame
  refine moves_bind (moves_get ?_)
  dsimp only
  split
  · exact moves_throw _
  · split
    · exact moves_throw _
    · exact walks_conn (.single (.queue _ h rfl)) (.tidy _ ⟨rfl, .inl rfl⟩) trivial

theorem publishes_of (hfree : s.conn.pendingAuth.publish = none) {p : Stream → Bool}
    (hp : s.conn.currentStream.any p = true) (hpub : ∀ st, p st = true → st.isPublishing = true) :
    s.ledger.Publishes := by
  refine ⟨hfree, ?_⟩
  cases hs : s.conn.currentStream with
  | none => simp [hs] at hp
  | some st =>
    rw [hs, Option.any_some] at hp
    exact ⟨st.view, by simp [Session.ledger, hs], hpub st hp⟩

theorem data_walks (h : Host) (sid ts : UInt32) (payload : List UInt8) :
    Walks (Ledger.Queues cause) o (handlePublisherDataMessage h sid ts payload) s
      (fun _ _ => True) := by
  unfold handlePublisherDataMessage
  refine moves_bind (moves_get ?_)
  dsimp only
  split
  · exact moves_pure trivial
  · split
    · rename_i hrelay
      split
      · refine queue_walks (.inr ?_)
        rw [Bool.and_eq_true, Bool.and_eq_true, Option.isNone_iff_eq_none] at hrelay
        obtain ⟨⟨_, hfree⟩, hpub⟩ := hrelay
        refine publishes_of hfree (p := Stream.isPublishing) ?_ (fun _ h => h)
        unfold Conn.isPublishing at hpub
        cases hs : s.conn.currentStream with
        | none => simp [hs] at hpub
        | some st => simpa [hs] using hpub
      · exact moves_throw _
    · exact moves_pure trivial

/-- Media of the peer is queued, or nothing happens. -/
theorem media_walks (hr : o.receives) (h : Host) (sid : UInt32) (frameType : FrameType)
    (ts : UInt32) (payload : List UInt8) :
    Walks (Ledger.Queues cause) o (handleMediaFrame h sid frameType ts payload) s
      (fun _ _ => True) := by
  have hcounted : Conn.Move o s.conn { s.conn with
      mediaBytesReceived := satAdd s.conn.mediaBytesReceived payload.length } :=
    .deed _ (.receive payload.length hr)
  unfold handleMediaFrame
  refine moves_bind (moves_get ?_)
  split
  · split
    · exact walks_unseen rfl hcounted trivial
    · exact moves_pure trivial
  · rename_i hactive
    have hpublishes : s.ledger.Publishes := by
      rw [not_not, Conn.isActivePublisherStream, Conn.isPublisherStream, Bool.and_eq_true,
        Bool.and_eq_true, Option.isNone_iff_eq_none] at hactive
      exact publishes_of hactive.2.1 hactive.2.2 fun st h => (Bool.and_eq_true _ _ ▸ h).1
    dsimp only
    split
    · exact moves_throw _
    · refine moves_bind (moves_modify (.single ⟨.refl, (ReflTransGen.single hcounted).tail
        (.tidy _ ⟨rfl, .inl rfl⟩)⟩) ?_)
      split
      · exact moves_throw _
      · refine moves_bind (walks_unseen rfl (.tidy _ ⟨rfl, .inl rfl⟩) ?_)
        exact queue_walks (.inr hpublishes)

theorem sub_tag_walks (hr : o.receives) (h : Host) (sid : UInt32) (tagType : UInt8) (ts : UInt32)
    (payload : List UInt8) :
    Walks (Ledger.Queues cause) o (handleSubTag h sid tagType ts payload) s (fun _ _ => True) := by
  unfold handleSubTag
  split
  · exact media_walks hr h sid _ ts payload
  · split
    · exact media_walks hr h sid _ ts payload
    · split
      · exact data_walks h sid ts payload
      · exact moves_pure trivial

theorem aggregate_walks (hr : o.receives) (h : Host) (sid baseTs : UInt32) (subtags : Nat)
    (base : Option UInt32) (tags : List UInt8) (budget : Nat) (s : Session) :
    Walks (Ledger.Queues cause) o
      (handleAggregateFrom h sid baseTs subtags base tags budget) s (fun _ _ => True) := by
  induction subtags generalizing base tags budget s with
  | zero =>
    unfold handleAggregateFrom
    split
    · exact moves_pure trivial
    · exact moves_throw _
  | succ subtags ih =>
    unfold handleAggregateFrom
    split
    · exact moves_pure trivial
    · dsimp only
      split
      · exact moves_throw _
      · split
        · exact moves_throw _
        · refine moves_bind (moves_get ?_)
          split
          · exact moves_pure trivial
          · exact moves_bind ((sub_tag_walks hr h sid _ _ _).weaken fun _ t _ => ih _ _ _ t)

theorem user_control_walks (h : Host) (event : UserControl) :
    Walks (Ledger.Step cause) o (handleUserControl h event) s (fun _ _ => True) := by
  cases event with
  | pingRequest ts =>
    have hroll : ∀ c routes, Untold ⟨c, routes⟩ ⟨Conn.rollPingWindow c h.now, routes⟩ := by
      intro c routes
      unfold Conn.rollPingWindow
      split
      · exact ⟨rfl, rfl, .inl rfl⟩
      · split <;> exact ⟨rfl, rfl, .inl rfl⟩
    refine moves_bind (walks_unseen (hroll _ _).1 (.tidy _ (hroll _ s.routes).2)
      (moves_bind (moves_get ?_)))
    split
    · exact moves_throw _
    · refine moves_bind (walks_unseen rfl (.tidy _ ⟨rfl, .inl rfl⟩) ?_)
      exact quiet_walks (quiet_user_control _ _)
  | setBufferLength ms =>
    simp only [handleUserControl]
    exact walks_unseen rfl (.tidy _ ⟨rfl, .inl rfl⟩) trivial
  | malformed e => exact moves_throw _
  | other => exact moves_pure trivial

def Covers (cause : Cause) (h : Host) (c : Conn) (m : PeerMessage) (budget : Nat) : Prop :=
  budget ≠ 0 → ∀ role n, Carries m role n → Admits c role n → Decides cause h c role n

def IsMedia : PeerMessage → Prop
  | .media _ _ _ _ => True
  | .data _ _ _ => True
  | .aggregate _ _ _ => True
  | _ => False

theorem budgeted_walks {step : Ledger → Ledger → Prop}
    (hm : budget ≠ 0 → Walks step o (handleSingle h m) s (fun _ _ => True)) :
    Walks step o (if budget = 0 then pure 0 else do handleSingle h m; pure (budget - 1)) s
      (fun _ _ => True) := by
  split
  · exact moves_pure trivial
  · rename_i hb
    exact moves_bind ((hm hb).weaken fun _ _ _ => moves_pure trivial)

/-- Media only adds to the relay queue. -/
theorem media_message_walks (hr : o.receives) (h : Host) {m : PeerMessage} (hm : IsMedia m)
    (budget : Nat) : Walks (Ledger.Queues cause) o (handleMessage h m budget) s
      (fun _ _ => True) := by
  cases m with
  | media frameType sid ts payload =>
    exact budgeted_walks fun _ => media_walks hr h sid frameType ts payload
  | data sid ts payload => exact budgeted_walks fun _ => data_walks h sid ts payload
  | aggregate sid ts payload => exact aggregate_walks hr h sid ts _ none payload budget s
  | command _ => exact hm.elim
  | userControl _ => exact hm.elim
  | control _ => exact hm.elim
  | other => exact hm.elim

/-- Any other message never adds to it. -/
theorem other_message_walks (hm : ¬ IsMedia m)
    (hd : Covers cause h s.conn m budget)
    (ho : ∀ command, m = .command command → budget ≠ 0 → Obeys o s.conn h command) :
    Walks (Ledger.Step cause) o (handleMessage h m budget) s (fun _ _ => True) := by
  cases m with
  | command command => exact budgeted_walks fun hb => command_walks (hd hb) (ho command rfl hb)
  | userControl event => exact budgeted_walks fun _ => user_control_walks h event
  | control result =>
    cases result with
    | error e => exact budgeted_walks fun _ => moves_throw e
    | ok _ => exact budgeted_walks fun _ => moves_pure trivial
  | other => exact budgeted_walks fun _ => moves_pure trivial
  | media _ _ _ _ => exact absurd trivial hm
  | data _ _ _ => exact absurd trivial hm
  | aggregate _ _ _ => exact absurd trivial hm

/-- Whatever the peer sends, the session moves along the abstract one. -/
theorem message_walks (hr : IsMedia m → o.receives)
    (hd : Covers cause h s.conn m budget)
    (ho : ∀ command, m = .command command → budget ≠ 0 → Obeys o s.conn h command) :
    Walks (Ledger.Acts cause) o (handleMessage h m budget) s (fun _ _ => True) := by
  by_cases hm : IsMedia m
  · exact (media_message_walks (hr hm) h hm budget).along fun _ _ => .inr
  · exact (other_message_walks hm hd ho).along fun _ _ => .inl

theorem undo_inject_path (hi : cause.injects) (hc : cause.claims) (previous : Option String)
    (evictions : Nat) (s : Session) :
    Path cause s.ledger (s.undoInjectClaim previous evictions).ledger := by
  obtain ⟨hp, _⟩ := release_claimed_path cause s
  have hnone : s.releaseClaimedPublishRoute.conn.claimedPublishRoute = none := by
    unfold Session.releaseClaimedPublishRoute
    split
    · assumption
    · rfl
  unfold Session.undoInjectClaim
  dsimp only
  generalize s.releaseClaimedPublishRoute = t at hp hnone
  have htake : Path cause t.ledger (Session.ledger ⟨{ t.conn with
      pendingCacheEvictions := t.conn.pendingCacheEvictions.take evictions }, t.routes⟩) :=
    .single (.restore _ hi)
  refine hp.trans ?_
  split
  · exact htake
  · refine htake.tail (.reroute _ _ ?_ (fun _ => .inr hc))
    intro hs
    have hs : t.conn.publishRoutes = true := hs
    rw [if_pos hs]
    exact reroutes_claim (l := Session.ledger ⟨{ t.conn with
      pendingCacheEvictions := t.conn.pendingCacheEvictions.take evictions }, t.routes⟩) (.inl hnone)

theorem acts_of_path {l l' : Ledger} (h : Path cause l l') :
    Relation.ReflTransGen (Ledger.Acts cause) l l' :=
  Relation.ReflTransGen.mono (fun _ _ => .inl) _ _ h

theorem undo_inject_rekeys (previous : Option String) (evictions : Nat) (s : Session) :
    ∃ relayKey, Tidies { s.conn with relayKey } (s.undoInjectClaim previous evictions).conn := by
  have hreleased : Tidies s.conn s.releaseClaimedPublishRoute.conn := by
    unfold Session.releaseClaimedPublishRoute
    split <;> exact ⟨rfl, .inl rfl⟩
  unfold Session.undoInjectClaim
  dsimp only
  generalize s.releaseClaimedPublishRoute = t at hreleased
  cases previous with
  | none => exact ⟨s.conn.relayKey, hreleased.trans ⟨rfl, .inl rfl⟩⟩
  | some prev =>
    refine ⟨prev, ?_, hreleased.2⟩
    have hcore := hreleased.1
    simp only [Conn.core, Conn.standing, Core.mk.injEq, Standing.mk.injEq] at hcore ⊢
    simp [hcore]

/-- The host's media is queued like the peer's. -/
theorem inject_walks {frameType : FrameType} {ts : UInt32} {payload : List UInt8}
    (hi : cause.injects) (hc : s.conn.app ≠ "" → cause.claims) (hs : o.supplies) :
    Walks (Ledger.Acts cause) o (injectRelayFrame h frameType ts payload) s
      (fun _ _ => True) := by
  unfold injectRelayFrame
  refine moves_bind (moves_get ?_)
  dsimp only
  split
  · exact moves_throw _
  split
  · exact moves_throw _
  split
  · exact moves_throw _
  rename_i hnamed
  have hclaims := hc (not_or.mp hnamed).1
  split
  · exact moves_throw _
  obtain ⟨hclaim, htidies, _⟩ := claim_route_path cause hclaims s.conn.relayRouteKey s
  refine moves_bind (moves_modify_get
    (.single ⟨acts_of_path hclaim, .single (.tidy _ htidies)⟩) ?_)
  split
  · refine moves_bind (moves_attempt ((queue_walks (.inl hi)).along fun _ _ => .inr) ?_)
    split
    · split
      · obtain ⟨relayKey, hundo⟩ := undo_inject_rekeys s.conn.claimedPublishRoute
          s.conn.pendingCacheEvictions.length _
        refine moves_bind (moves_modify (.single
          ⟨acts_of_path (undo_inject_path hi hclaims _ _ _), ?_⟩) (moves_throw _))
        exact .tail (.single (.deed _ (.rekey relayKey hs))) (.tidy _ hundo)
      · exact moves_throw _
    · exact walks_unseen rfl (.deed _ (.supply _ hs)) trivial
  · exact moves_bind (walks_unseen rfl (.deed _ (.rekey _ hs)) (moves_throw _))

end Handlers

section Opened

/-- A mandate for everything, except that the host is asked only as told. -/
def openMandate (h : Host) (asks : Role → Prop) : Mandate where
  now := h.now
  grants _ _ := True
  late := True
  ends := True
  pauses _ := True
  selects := True
  receives := True
  supplies := True
  loses := True
  asks

theorem obeys_open {c : Conn} {h : Host} (m : PeerMessage) (budget : Nat) (command : Command)
    (hm : m = .command command) (_ : budget ≠ 0) :
    Obeys (openMandate h fun role => ∃ command, m = .command command ∧ command.asks role = true) c h
      command := by
  subst hm
  refine ⟨rfl, fun _ => ⟨?_, fun ha => ⟨command, rfl, ha⟩⟩, fun _ => trivial, fun _ _ => trivial,
    fun _ => trivial, fun _ _ _ _ _ => trivial⟩
  rintro ⟨_, he, ha⟩
  cases he
  exact ha

theorem decrees_open (h : Host) (allow : Bool) :
    Decrees (openMandate h fun _ => False) h allow :=
  ⟨fun _ => id, fun _ => rfl, fun _ => trivial⟩

end Opened

end LibRtmp.Proofs
