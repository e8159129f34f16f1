import LibRtmp.Proofs.SessionMoves

namespace LibRtmp.Proofs

open Actions History
open Relation (ReflTransGen)

variable {m : Ledger} (h : Host) (c : Conn) {role : Role}

/-- A request waits only on a stream, and a stream is created only after a `connect`. -/
structure Seated (l : Ledger) : Prop where
  stream : l.stream.isSome = true → l.joined = true
  waiting : ∀ role, (l.waiting.get role).isSome = true → l.stream.isSome = true

structure Warranted (cause : Cause) (l l' : Ledger) : Prop where
  seated : Seated l'
  app : l.joined = true → l'.joined = true ∧ l'.app = l.app
  role : ∀ v role, l'.stream = some v → v.hasRole role = true →
    (∃ v', l.stream = some v' ∧ v'.hasRole role = true ∧ v'.name = v.name) ∨
      cause.permits role v.name
  waiting : ∀ role p, l'.waiting.get role = some p →
    l.waiting.get role = some p ∨ cause.asks role p.streamName p.requestId

section Abstract

variable {cause : Cause} {l l' : Ledger}

theorem Warranted.refl (hs : Seated l) : Warranted cause l l :=
  ⟨hs, fun h => ⟨h, rfl⟩, fun v _ hv hr => .inl ⟨v, hv, hr, rfl⟩, fun _ _ h => .inl h⟩

/-- A move that leaves the stream, the requests and the app alone. -/
theorem Warranted.aside (h : Warranted cause l m) (happ : l'.app = m.app)
    (hjoined : l'.joined = m.joined) (hstream : l'.stream = m.stream)
    (hwaiting : l'.waiting = m.waiting) : Warranted cause l l' := by
  obtain ⟨⟨hs, hw⟩, ha, hr, hp⟩ := h
  constructor
  · constructor
    · rwa [hstream, hjoined]
    · rwa [hstream, hwaiting]
  · rwa [hjoined, happ]
  · rwa [hstream]
  · rwa [hwaiting]

theorem has_role_take_role (v : StreamView) (role role' : Role) (name : String)
    (h : (v.takeRole role name).hasRole role' = true) : role' = role := by
  cases role <;> cases role' <;> first | rfl | cases h

theorem has_role_idle (v : StreamView) (role : Role) : v.idle.hasRole role = false := by
  cases role <;> rfl

/-- One more step of the ledger needs no other warrant. -/
theorem Warranted.step (h : Warranted cause l m) (hs : m.Step cause l') :
    Warranted cause l l' := by
  cases hs with
  | enter app hj =>
    have hnone : m.stream = none := by
      rw [← Option.not_isSome_iff_eq_none]
      intro hsome
      rw [h.seated.stream hsome] at hj
      cases hj
    have hl : l.joined = true → False := by
      intro hlj
      rw [(h.app hlj).1] at hj
      cases hj
    refine ⟨⟨?_, h.seated.waiting⟩, fun hlj => (hl hlj).elim, h.role, h.waiting⟩
    intro hsome
    rw [hnone] at hsome
    cases hsome
  | advance _ =>
    exact ⟨⟨fun _ => rfl, h.seated.waiting⟩, fun hl => ⟨rfl, (h.app hl).2⟩, h.role, h.waiting⟩
  | openStream streamId hj =>
    refine ⟨⟨fun _ => hj, fun _ _ => rfl⟩, h.app, ?_, h.waiting⟩
    intro v role hv hr
    cases hv
    cases role <;> cases hr
  | idle =>
    refine ⟨⟨?_, ?_⟩, h.app, ?_, h.waiting⟩
    · exact fun hsome => h.seated.stream (by simpa using hsome)
    · exact fun role hsome => by simpa using h.seated.waiting role hsome
    · intro v role hv hr
      obtain ⟨u, _, rfl⟩ := Option.map_eq_some_iff.mp hv
      rw [has_role_idle] at hr
      cases hr
  | forget role =>
    have hback : ∀ r p, (m.waiting.set role none).get r = some p → m.waiting.get r = some p := by
      intro r p hp
      cases role <;> cases r <;> first | exact hp | cases hp
    refine ⟨⟨h.seated.stream, ?_⟩, h.app, h.role, fun r p hp => h.waiting r p (hback r p hp)⟩
    intro r hsome
    obtain ⟨p, hp⟩ := Option.isSome_iff_exists.mp hsome
    exact h.seated.waiting r (Option.isSome_iff_exists.mpr ⟨p, hback r p hp⟩)
  | wait role p hask hfree hsome =>
    refine ⟨⟨h.seated.stream, fun _ _ => hsome⟩, h.app, h.role, ?_⟩
    intro r q hq
    by_cases hr : r = role
    · subst hr
      rw [PerRole.get_set] at hq
      cases hq
      exact .inr hask
    · rw [PerRole.get_set_ne _ _ hr] at hq
      exact h.waiting r q hq
  | grant role name hp =>
    refine ⟨⟨?_, ?_⟩, h.app, ?_, h.waiting⟩
    · exact fun hsome => h.seated.stream (by simpa using hsome)
    · exact fun role hsome => by simpa using h.seated.waiting role hsome
    · intro v r hv hr
      obtain ⟨u, _, rfl⟩ := Option.map_eq_some_iff.mp hv
      cases has_role_take_role u role r name hr
      cases role <;> exact .inr hp
  | reroute claimed routes _ _ => exact h.aside rfl rfl rfl rfl
  | revoke routes _ => exact h.aside rfl rfl rfl rfl
  | evict relay evictions abandoned _ _ _ => exact h.aside rfl rfl rfl rfl
  | restore evictions _ => exact h.aside rfl rfl rfl rfl
  | discard _ => exact h.aside rfl rfl rfl rfl

theorem Warranted.acts (h : Warranted cause l m) (ha : m.Acts cause l') :
    Warranted cause l l' := by
  rcases ha with hs | hq
  · exact h.step hs
  · cases hq
    exact h.aside rfl rfl rfl rfl

theorem warranted_path (hs : Seated l) (hp : ReflTransGen (Ledger.Acts cause) l l') :
    Warranted cause l l' := by
  induction hp with
  | refl => exact .refl hs
  | tail _ ha ih => exact ih.acts ha

/-- Only media adds to the relay queue. -/
theorem relay_step (hs : l.Step cause l') : l'.relay.Sublist l.relay := by
  cases hs with
  | evict relay _ _ h _ _ => exact h
  | discard _ => exact List.nil_sublist _
  | _ => exact .refl _

theorem relay_path (hp : Path cause l l') : l'.relay.Sublist l.relay := by
  induction hp with
  | refl => exact .refl _
  | tail _ hs ih => exact (relay_step hs).trans ih

/-- A session that does not publish queues nothing. -/
theorem queues_blocked (hi : ¬ cause.injects) (hb : ¬ l.Publishes)
    (hp : ReflTransGen (Ledger.Queues cause) l l') : l' = l := by
  rcases ReflTransGen.cases_head hp with rfl | ⟨m, hq, _⟩
  · rfl
  · obtain ⟨_, h, _⟩ := hq
    exact absurd h (not_or.mpr ⟨hi, hb⟩)

end Abstract

section Turns

variable {c : Conn} {t : Turn} {past : List (Conn × Turn)}

def Turn.Permits (t : Turn) (c : Conn) (role : Role) (name : String) : Prop :=
  t.Asked c role name .allow ∨ ∃ p, t.event = .complete role p.requestId true ∧
    p.streamName = name ∧ c.pendingAuth.get role = some p

def turnCause (t : Turn) (c : Conn) : Cause where
  permits := Turn.Permits t c
  asks role name requestId := t.Asked c role name (.pending requestId)
  claims := True
  injects := False
  discards := True

theorem decision_installed {h : Host} (hi : h.Installed) (role : Role) (c : Conn) (name : String) :
    ∃ cb, h.auth.get role = some cb ∧ h.decision role c name = cb c.connId c.app name := by
  obtain ⟨hc, ha⟩ := hi role
  obtain ⟨cb, hcb⟩ := Option.isSome_iff_exists.mp ha
  refine ⟨cb, hcb, ?_⟩
  unfold Host.decision
  rw [hc, hcb]

theorem covers_turn {m : PeerMessage} {budget : Nat} (hi : t.host.Installed)
    (he : t.event = .message m budget) : Covers (turnCause t c) t.host c m budget := by
  intro hb role name hcarries hadmits
  obtain ⟨cb, hcb, hdecision⟩ := decision_installed hi role c name
  have hasked : t.Asked c role name (t.host.decision role c name) :=
    ⟨m, budget, cb, he, hb, hcarries, hadmits, hcb, hdecision.symm⟩
  constructor
  · intro hallow
    rw [hallow] at hasked
    exact ⟨.inl hasked, trivial, fun _ _ => trivial⟩
  · intro requestId hpending
    rw [hpending] at hasked
    exact hasked

theorem asked_joined {name : String} {answer : AuthorizationResult} {routes : Routes}
    (hs : Seated (Session.ledger ⟨c, routes⟩)) (h : t.Asked c role name answer) :
    (Session.ledger ⟨c, routes⟩).joined = true := by
  obtain ⟨_, _, _, _, _, _, hadmits, _, _⟩ := h
  exact hs.stream (by simpa [Session.ledger] using hadmits.stream)

theorem waiting_joined {p : PendingAuth} {routes : Routes}
    (hs : Seated (Session.ledger ⟨c, routes⟩)) (h : c.pendingAuth.get role = some p) :
    (Session.ledger ⟨c, routes⟩).joined = true :=
  hs.stream (hs.waiting role (Option.isSome_iff_exists.mpr ⟨p, h⟩))

theorem permits_joined {name : String} {routes : Routes}
    (hs : Seated (Session.ledger ⟨c, routes⟩)) (h : Turn.Permits t c role name) :
    (Session.ledger ⟨c, routes⟩).joined = true := by
  rcases h with hasked | ⟨p, _, _, hp⟩
  · exact asked_joined hs hasked
  · exact waiting_joined hs hp

/-- A turn moves along the abstract session, entitled to no more than it was allowed. -/
theorem turn_path (hi : t.host.Installed) (c : Conn) :
    ∃ routes, ReflTransGen (Ledger.Acts (turnCause t c)) (Session.ledger ⟨c, t.routes⟩)
      (Session.ledger ⟨t.run c, routes⟩) := by
  have hmoves : Moves Session.ledger (Ledger.Acts (turnCause t c)) (t.event.action t.host)
      ⟨c, t.routes⟩ (fun _ _ => True) := by
    cases he : t.event with
    | message m budget =>
      exact (Walks.ledger (message_walks (s := ⟨c, t.routes⟩) (fun _ => trivial) (covers_turn hi he)
        (obeys_open m budget))).returning ()
    | complete role requestId allow =>
      refine (Walks.ledger (complete_authorization_walks (decrees_open t.host allow) ?_)).mono
        fun _ _ => .inl
      intro p hp hid hallow
      subst hid hallow
      exact ⟨⟨.inr ⟨p, he, rfl, hp⟩, trivial, fun _ _ => trivial⟩, trivial⟩
    | reap timeout =>
      exact ((Walks.ledger (reap_walks (decrees_open t.host false).silent t.host timeout)).mono
        fun _ _ => .inl).returning ()
  exact ⟨_, hmoves.path⟩

/-- A role is kept under its app and name, or was allowed in this turn. -/
theorem turn_role {app name : String} {routes : Routes}
    (hs : Seated (Session.ledger ⟨c, t.routes⟩))
    (hf : Warranted (turnCause t c) (Session.ledger ⟨c, t.routes⟩)
      (Session.ledger ⟨t.run c, routes⟩))
    (h : (t.run c).HoldsRole role app name) :
    c.HoldsRole role app name ∨ (c.app = app ∧ Turn.Permits t c role name) := by
  obtain ⟨rfl, s, hmem, hrole, rfl⟩ := h
  have hview : ∀ st : Stream, st.view.hasRole role = st.hasRole role := by
    intro st
    cases role <;> rfl
  have hstream : (Session.ledger ⟨t.run c, routes⟩).stream = some s.view := by
    rw [Session.ledger, Option.mem_def.mp hmem, Option.map_some]
  rcases hf.role s.view role hstream ((hview s).trans hrole) with ⟨v, hv, hr, hn⟩ | hp
  · obtain ⟨u, hu, rfl⟩ := Option.map_eq_some_iff.mp hv
    have happ := (hf.app (hs.stream (Option.isSome_iff_exists.mpr ⟨_, hv⟩))).2
    exact .inl ⟨happ.symm, u, hu, (hview u).symm.trans hr, hn⟩
  · exact .inr ⟨(hf.app (permits_joined hs hp)).2.symm, hp⟩

/-- A request waits on under its app, or was put to the host in this turn. -/
theorem turn_waiting {p : PendingAuth} {routes : Routes}
    (hs : Seated (Session.ledger ⟨c, t.routes⟩))
    (hf : Warranted (turnCause t c) (Session.ledger ⟨c, t.routes⟩)
      (Session.ledger ⟨t.run c, routes⟩))
    (h : (t.run c).pendingAuth.get role = some p) :
    (t.run c).app = c.app ∧
      (c.pendingAuth.get role = some p ∨ t.Asked c role p.streamName (.pending p.requestId)) := by
  rcases hf.waiting role p h with hp | hasked
  · exact ⟨(hf.app (waiting_joined hs hp)).2, .inl hp⟩
  · exact ⟨(hf.app (asked_joined hs hasked)).2, .inr hasked⟩

structure Vouched (past : List (Conn × Turn)) (c : Conn) : Prop where
  seated : ∀ routes, Seated (Session.ledger ⟨c, routes⟩)
  roles : ∀ role app name, c.HoldsRole role app name →
    Since (fun e before => ¬ e.1.HoldsRole role app name ∧ Granted e before role app name)
      (fun e => e.1.HoldsRole role app name) past
  waits : ∀ role p, c.pendingAuth.get role = some p →
    Since (fun x _ => x.1.app = c.app ∧ x.2.Asked x.1 role p.streamName (.pending p.requestId))
      (fun x => x.1.pendingAuth.get role = some p) past
  settled : ∀ role requestId, Settled past role requestId → ¬ c.Waits role requestId

theorem vouched_start (hs : c.Untouched) : Vouched [] c := by
  constructor
  · intro routes
    constructor
    · intro hsome
      simp [Session.ledger, hs.stream] at hsome
    · intro role hsome
      simp [Session.ledger, hs.pending role] at hsome
  · rintro role app name ⟨_, s, hmem, _⟩
    rw [hs.stream] at hmem
    cases hmem
  · intro role p hp
    rw [hs.pending role] at hp
    cases hp
  · rintro role requestId ⟨later, e, before, _, hpast, _⟩
    simp at hpast

/-- A request that no longer waits is not put to the host again under its id. -/
theorem settled_turn {requestId : Nat} (h : Vouched past c)
    (hs : Settled ((c, t) :: past) role requestId) :
    ¬ c.Waits role requestId ∧ ∃ e ∈ past, ∃ n, e.2.Asked e.1 role n (.pending requestId) := by
  obtain ⟨later, e, before, name, hpast, hasked, x, hx, hgone⟩ := hs
  cases later with
  | nil => cases hx
  | cons y later =>
    obtain ⟨rfl, rfl⟩ := List.cons.inj hpast
    refine ⟨?_, e, by simp, name, hasked⟩
    rcases List.mem_cons.mp hx with rfl | hx
    · exact hgone
    · exact h.settled role requestId ⟨later, e, before, name, rfl, hasked, x, hx, hgone⟩

/-- A turn keeps every role vouched for. -/
theorem vouched_turn (h : Vouched past c) (hi : t.host.Installed)
    (hfresh : ∀ role name id, t.Asked c role name (.pending id) →
      ∀ e ∈ past, ∀ n, ¬ e.2.Asked e.1 role n (.pending id)) :
    Vouched ((c, t) :: past) (t.run c) := by
  have hs := h.seated t.routes
  obtain ⟨routes, hp⟩ := turn_path hi c
  have hw := warranted_path hs hp
  constructor
  · exact fun _ => ⟨hw.seated.stream, hw.seated.waiting⟩
  · intro role app name hrole
    by_cases hold : c.HoldsRole role app name
    · exact (h.roles role app name hold).later hold
    · rcases turn_role hs hw hrole with hkept | ⟨rfl, hpermits⟩
      · exact absurd hkept hold
      · refine since_now ⟨hold, rfl, ?_⟩
        rcases hpermits with hallow | ⟨p, he, rfl, hwaiting⟩
        · exact .inl hallow
        · exact .inr ⟨p, he, rfl, hwaiting, h.waits role p hwaiting⟩
  · intro role p hwaiting
    obtain ⟨happ, hkept | hasked⟩ := turn_waiting hs hw hwaiting
    · rw [happ]
      exact (h.waits role p hkept).later hkept
    · exact since_now ⟨happ.symm, hasked⟩
  · rintro role requestId hsettled ⟨p, hwaiting, rfl⟩
    obtain ⟨hgone, e, he, n, hasked⟩ := settled_turn h hsettled
    obtain ⟨_, hkept | hagain⟩ := turn_waiting hs hw hwaiting
    · exact hgone ⟨p, hkept, rfl⟩
    · exact hfresh role _ _ hagain e he n hasked

theorem driven_vouched {start : Conn} (hs : start.Untouched) (hd : Driven start past c) :
    Vouched past c := by
  induction hd with
  | start => exact vouched_start hs
  | turn t _ hi hfresh ih => exact vouched_turn ih hi hfresh

end Turns

section Gate

def peerCause : Cause where
  permits _ _ := True
  asks _ _ _ := True
  claims := True
  injects := False
  discards := True

theorem covers_peer (m : PeerMessage) (budget : Nat) :
    Covers peerCause h c m budget := fun _ _ _ _ _ =>
  ⟨fun _ => ⟨trivial, trivial, fun _ _ => trivial⟩, fun _ _ => trivial⟩

theorem publishes_relays {c : Conn} {routes : Routes}
    (h : (Session.ledger ⟨c, routes⟩).Publishes) : c.Relays := by
  obtain ⟨hfree, v, hv, hpub⟩ := h
  obtain ⟨s, hs, rfl⟩ := Option.map_eq_some_iff.mp hv
  refine ⟨hfree, ?_⟩
  rw [Conn.isPublishing, hs]
  exact hpub

/-- Without an authorized publish a turn adds nothing to the relay queue. -/
theorem turn_gate {c : Conn} (hb : ¬ c.Relays) (t : Turn) :
    (t.run c).pendingRelay.Sublist c.pendingRelay := by
  have hstep : Moves Session.ledger (Ledger.Step peerCause) (t.event.action t.host) ⟨c, t.routes⟩
      (fun _ _ => True) → (t.run c).pendingRelay.Sublist c.pendingRelay := fun h => relay_path h.path
  cases he : t.event with
  | message m budget =>
    rw [he] at hstep
    by_cases hm : IsMedia m
    · have hmoves : Moves Session.ledger (Ledger.Queues peerCause) (handleMessage t.host m budget)
          ⟨c, t.routes⟩ (fun _ _ => True) :=
        Walks.ledger (media_message_walks (o := openMandate t.host fun _ => False) trivial t.host hm
          budget)
      have hsame := queues_blocked id (fun h => hb (publishes_relays h)) (hmoves.returning ()).path
      have hrelay : (t.run c).pendingRelay = c.pendingRelay := by
        rw [Turn.run, he]
        exact congrArg Ledger.relay hsame
      rw [hrelay]
    · exact hstep ((Walks.ledger (other_message_walks hm (covers_peer _ _ _ _)
        (obeys_open m budget))).returning ())
  | complete role requestId allow =>
    rw [he] at hstep
    refine hstep (Walks.ledger (complete_authorization_walks (decrees_open t.host allow) ?_))
    exact fun _ _ _ _ => ⟨⟨trivial, trivial, fun _ _ => trivial⟩, trivial⟩
  | reap timeout =>
    rw [he] at hstep
    exact hstep ((Walks.ledger (reap_walks (decrees_open t.host false).silent t.host
      timeout)).returning ())

end Gate

section Ends

variable {s : Session}

def decidedCause : Cause := { peerCause with asks := fun _ _ _ => False }

theorem decided_waiting {α : Type} {m : ConnM α} {role : Role} {p : PendingAuth}
    {Q : α → Session → Prop} (hs : Seated s.ledger)
    (hm : Moves Session.ledger (Ledger.Step decidedCause) m s Q)
    (h : (m.on s).2.conn.pendingAuth.get role = some p) :
    s.conn.pendingAuth.get role = some p := by
  have hw := warranted_path hs (acts_of_path hm.path)
  exact (hw.waiting role p h).resolve_right id

theorem stale_completion {requestId : Nat} (allow : Bool)
    (hstale : ¬ s.conn.Waits role requestId) :
    (completeAuthorization h role requestId allow).on s = (.ok (), s) := by
  unfold completeAuthorization
  rw [Action.on_bind, Action.on_get]
  dsimp only
  split
  · rfl
  · rename_i p hp
    rw [if_pos fun hid => hstale ⟨p, hp, hid⟩]
    rfl

theorem drop_pending_none (role : Role) :
    (c.dropPendingAuth role).pendingAuth.get role = none := by
  unfold Conn.dropPendingAuth
  split
  · assumption
  · exact PerRole.get_set _ _ _

/-- A decision on the waiting request takes it off, whatever else comes of it. -/
theorem completion_clears (hs : Seated s.ledger) {role : Role} {p : PendingAuth}
    (hp : s.conn.pendingAuth.get role = some p) (allow : Bool) :
    ((completeAuthorization h role p.requestId allow).on s).2.conn.pendingAuth.get role =
      none := by
  have hon : (completeAuthorization h role p.requestId allow).on s =
      (applyDecision h role p.streamName allow).on ⟨s.conn.dropPendingAuth role, s.routes⟩ := by
    unfold completeAuthorization
    rw [Action.on_bind, Action.on_get]
    dsimp only
    rw [hp]
    dsimp only
    rw [if_neg (not_not.mpr rfl), Action.on_bind]
    rfl
  rw [hon, Option.eq_none_iff_forall_ne_some]
  intro q hq
  have hdrop := drop_pending_path decidedCause s.conn s.routes role
  have hseated := (warranted_path hs (acts_of_path hdrop.1)).seated
  have hgone := decided_waiting hseated (Walks.ledger (apply_decision_walks (decrees_open h allow)
    (fun _ => ⟨trivial, trivial, fun _ _ => trivial⟩) fun _ => trivial)) hq
  rw [drop_pending_none] at hgone
  cases hgone

theorem reap_role_clears (hs : Seated s.ledger) {timeout : Nat} {role : Role}
    (hdue : ∀ p, s.conn.pendingAuth.get role = some p → timeout ≤ h.now - p.requestedAt) :
    ((reapTimedOutRole h timeout role).on s).2.conn.pendingAuth.get role = none := by
  unfold reapTimedOutRole
  rw [Action.on_bind, Action.on_get]
  dsimp only
  split
  · assumption
  · rename_i p hp
    rw [if_pos (hdue p hp)]
    let sealed : Session := ⟨{ s.conn with authSealed := s.conn.authSealed.set role true }, s.routes⟩
    exact completion_clears (s := sealed) h hs hp false

theorem ledger_bind_quiet {α β : Type} {m : ConnM α} {f : α → ConnM β} (hf : ∀ a, Quiet (f a)) :
    ((m >>= f).on s).2.ledger = (m.on s).2.ledger := by
  rw [Action.on_bind]
  generalize m.on s = r
  obtain ⟨r, t⟩ := r
  cases r with
  | error e => rfl
  | ok a => exact (hf a t).1

theorem reap_role_ok (timeout : Nat) (role : Role) (s : Session) :
    ∃ b, (reapTimedOutRole h timeout role).on s =
      (.ok b, ((reapTimedOutRole h timeout role).on s).2) := by
  unfold reapTimedOutRole
  rw [Action.on_bind, Action.on_get]
  dsimp only
  split
  · exact ⟨_, rfl⟩
  · split
    · exact ⟨_, rfl⟩
    · exact ⟨_, rfl⟩

/-- A request that is overdue is withdrawn. -/
theorem reap_clears (hs : Seated s.ledger) {timeout : Nat} {role : Role}
    (hdue : ∀ p, s.conn.pendingAuth.get role = some p → timeout ≤ h.now - p.requestedAt) :
    ((reapTimedOutPendingAuth h timeout).on s).2.conn.pendingAuth.get role = none := by
  obtain ⟨b, hb⟩ := reap_role_ok h timeout .publish s
  have hreaps : ∀ role u, Moves Session.ledger (Ledger.Step decidedCause)
      (reapTimedOutRole h timeout role) u (fun _ _ => True) := fun role _ =>
    Walks.ledger (reap_role_walks (decrees_open h false).silent h timeout role)
  have hfirst := hreaps .publish s
  have hseated := (warranted_path hs (acts_of_path hfirst.path)).seated
  have hkept : ∀ p, ((reapTimedOutRole h timeout .publish).on s).2.conn.pendingAuth.get role =
      some p → s.conn.pendingAuth.get role = some p := fun _ => decided_waiting hs hfirst
  have hclears : (∀ p, s.conn.pendingAuth.get .publish = some p →
      timeout ≤ h.now - p.requestedAt) → ((reapTimedOutRole h timeout .publish).on
        s).2.conn.pendingAuth.get .publish = none := reap_role_clears h hs
  unfold reapTimedOutPendingAuth
  rw [Action.on_bind, hb]
  generalize ((reapTimedOutRole h timeout .publish).on s).2 = t at hseated hkept hclears
  have hwaiting := congrArg (fun l => l.waiting.get role) (ledger_bind_quiet (s := t)
    (m := reapTimedOutRole h timeout .play) (fun play => quiet_pure (b || play)))
  refine hwaiting.trans ?_
  cases role with
  | play => exact reap_role_clears h hseated fun p hp => hdue p (hkept p hp)
  | publish =>
    refine Option.eq_none_iff_forall_ne_some.mpr fun p hp => ?_
    have hp' := decided_waiting hseated (hreaps .play t) hp
    rw [hclears hdue] at hp'
    cases hp'

theorem drop_both_none (role : Role) :
    c.dropPendingAuthorizations.pendingAuth.get role = none := by
  have hother : ∀ d : Conn, d.pendingAuth.publish = none →
      (d.dropPendingAuth .play).pendingAuth.publish = none := by
    intro d hd
    unfold Conn.dropPendingAuth
    split
    · exact hd
    · exact hd
  cases role with
  | publish => exact hother _ (drop_pending_none c .publish)
  | play => exact drop_pending_none _ .play

theorem quiet_eof (eof : Option UInt32) : Quiet (match eof with
    | none => pure ()
    | some sid => do
      let _ ← attempt (sendStreamLifecycleEof sid)
      pure () : ConnM Unit) := by
  cases eof with
  | none => exact quiet_pure _
  | some sid => exact quiet_bind (quiet_attempt (quiet_user_control _ _)) fun _ => quiet_pure _

theorem teardown_clears (eof : Option UInt32) (role : Role) :
    ((teardownStream h eof).on s).2.conn.pendingAuth.get role = none := by
  have hquiet := ledger_bind_quiet (s := s.evictActivePublishRoute)
    (m := modifyConn (fun c => c.endRole h.now s.conn.isActive)) (fun _ => quiet_eof eof)
  have hwaiting := congrArg (fun l => l.waiting.get role) hquiet
  exact hwaiting.trans (drop_both_none _ role)

theorem open_stream_clears (now : Nat) (wasActive : Bool) (count : Nat) (role : Role) :
    (c.openStream now wasActive count).pendingAuth.get role = none := by
  have hwaiting : (Session.ledger ⟨c.openStream now wasActive count, ∅⟩).waiting =
      (Conn.dropPendingAuthorizations { c with relayEnabled := false }).pendingAuth := by
    unfold Conn.openStream
    rw [transition_ledger _ _ (by decide), refresh_timer_quiet]
    rfl
  exact (congrArg (fun w => w.get role) hwaiting).trans (drop_both_none _ role)

theorem create_stream_clears {txn : Option UInt64} {parsed : Bool}
    (hw : Withdraws s.conn (.createStream txn parsed)) (role : Role) :
    ((handleCreateStream h txn parsed).on s).2.conn.pendingAuth.get role = none := by
  obtain ⟨hj, htxn, hparsed, hcount⟩ := hw
  obtain ⟨txn, rfl⟩ := Option.isSome_iff_exists.mp htxn
  subst hparsed
  let count := s.conn.projectedStreamCount
  have hquiet := ledger_bind_quiet (s := s.evictActivePublishRoute)
    (m := modifyConn (fun c => c.openStream h.now s.conn.isActive count))
    (f := fun _ => do
      let s ← get
      sendCreateStreamResponse txn s.conn.streamId)
    (fun _ => quiet_bind quiet_get fun _ => quiet_command _ _)
  have hwaiting := congrArg (fun l => l.waiting.get role) hquiet
  unfold handleCreateStream
  rw [Action.on_bind, Action.on_get]
  dsimp only
  have hstate : ¬ s.conn.state < .appConnected := Nat.not_lt.mpr hj
  rw [if_neg hstate, if_neg (by decide), if_neg (Nat.not_lt.mpr hcount)]
  exact hwaiting.trans (open_stream_clears _ _ _ _ role)

theorem withdraw_clears (hs : Seated s.ledger) {command : Command}
    (hw : Withdraws s.conn command) (role : Role) :
    ((handleCommand h command).on s).2.conn.pendingAuth.get role = none := by
  cases command with
  | fcUnpublish =>
    simp only [handleCommand]
    rw [Action.on_bind, Action.on_get]
    exact teardown_clears h _ role
  | deleteStream =>
    simp only [handleCommand]
    rw [Action.on_bind, Action.on_get]
    exact teardown_clears h _ role
  | createStream txn parsed => exact create_stream_clears h hw role
  | closeStream target =>
    simp only [handleCommand]
    rw [Action.on_bind, Action.on_get]
    dsimp only
    cases hstream : s.conn.currentStream with
    | none =>
      rw [if_neg (by simp)]
      rw [← Option.not_isSome_iff_eq_none]
      intro hwaiting
      have hsome := hs.waiting role hwaiting
      simp [Session.ledger, hstream] at hsome
    | some st =>
      have htarget : some st.streamId =
          some ((target.orElse fun _ => some st.streamId).getD 0) := by
        rcases hw with rfl | htarget
        · rfl
        · rw [htarget, hstream]
          rfl
      rw [Option.map_some, if_pos htarget]
      exact teardown_clears h _ role
  | _ => exact hw.elim

/-- A request whose wait ends does not wait any more. -/
theorem turn_ends {c : Conn} (hs : ∀ routes, Seated (Session.ledger ⟨c, routes⟩)) {t : Turn}
    {role : Role} {requestId : Nat} (h : t.Ends c role requestId) :
    ¬ (t.run c).Waits role requestId := by
  have hclear : (t.run c).pendingAuth.get role = none → ¬ (t.run c).Waits role requestId := by
    rintro hnone ⟨p, hp, _⟩
    rw [hnone] at hp
    cases hp
  unfold Turn.Ends at h
  unfold Turn.run at hclear ⊢
  cases he : t.event with
  | message m budget =>
    rw [he] at h hclear
    cases m with
    | command command =>
      obtain ⟨hb, hw⟩ := h
      refine hclear ?_
      have hquiet : ((SessionEvent.action t.host (.message (.command command) budget)).on
          ⟨c, t.routes⟩).2.ledger = ((handleCommand t.host command).on ⟨c, t.routes⟩).2.ledger := by
        unfold SessionEvent.action handleMessage
        rw [ledger_bind_quiet fun _ => quiet_pure _]
        dsimp only
        rw [if_neg hb]
        exact ledger_bind_quiet fun _ => quiet_pure _
      have hwaiting := congrArg (fun l => l.waiting.get role) hquiet
      exact hwaiting.trans (withdraw_clears t.host (hs t.routes) hw role)
    | _ => exact h.elim
  | complete r id allow =>
    rw [he] at h
    obtain ⟨rfl, rfl⟩ := h
    by_cases hwaits : c.Waits r id
    · obtain ⟨p, hp, rfl⟩ := hwaits
      rw [he] at hclear
      exact hclear (completion_clears t.host (hs t.routes) hp allow)
    · have hstale := stale_completion (s := ⟨c, t.routes⟩) t.host allow hwaits
      rw [SessionEvent.action, hstale]
      exact hwaits
  | reap timeout =>
    rw [he] at h hclear
    refine hclear ?_
    have hquiet : ((SessionEvent.action t.host (.reap timeout)).on ⟨c, t.routes⟩).2.ledger =
        ((reapTimedOutPendingAuth t.host timeout).on ⟨c, t.routes⟩).2.ledger :=
      ledger_bind_quiet fun _ => quiet_pure _
    have hwaiting := congrArg (fun l => l.waiting.get role) hquiet
    exact hwaiting.trans (reap_clears t.host (hs t.routes) h)

end Ends

/-- Whoever has a role under an app and a name was allowed exactly that. Other completions
change nothing, a request once settled stays settled, and nothing is relayed for a peer that
may not publish. -/
theorem authorization_sound {start c : Conn} {past : List (Conn × Turn)} (hs : start.Untouched)
    (hd : Driven start past c) :
    (∀ role app name, c.HoldsRole role app name →
      Since (fun e before => ¬ e.1.HoldsRole role app name ∧ Granted e before role app name)
        (fun e => e.1.HoldsRole role app name) past) ∧
    (∀ h role requestId allow routes, ¬ c.Waits role requestId →
      (completeAuthorization h role requestId allow).on ⟨c, routes⟩ = (.ok (), ⟨c, routes⟩)) ∧
    (∀ t role requestId, Turn.Ends t c role requestId → ¬ (t.run c).Waits role requestId) ∧
    (∀ role requestId, Settled past role requestId → ¬ c.Waits role requestId) ∧
    (¬ c.Relays → ∀ t, (Turn.run t c).pendingRelay.Sublist c.pendingRelay) := by
  have hv := driven_vouched hs hd
  refine ⟨hv.roles, ?_, ?_, hv.settled, turn_gate⟩
  · exact fun h _ _ allow _ hstale => stale_completion h allow hstale
  · exact fun _ _ _ => turn_ends hv.seated

def lateHost : Host := { auth := ⟨some fun _ _ _ => .pending 7, some fun _ _ _ => .deny⟩ }

def lateTurn (event : SessionEvent) : Turn := ⟨lateHost, ∅, event⟩

def lateConnect : Turn :=
  lateTurn (.message (.command (.connect (.ok ⟨{ info := { transactionId := 1 } }, some "live"⟩))) 10)

def lateCreate : Turn := lateTurn (.message (.command (.createStream (some 2) true)) 10)

def latePublish : Turn := lateTurn (.message (.command (.publish (some "cam"))) 10)

def lateApproval : Turn := lateTurn (.complete .publish 7 true)

def lateAsked : Conn := latePublish.run (lateCreate.run (lateConnect.run {}))

def latePast : List (Conn × Turn) :=
  [(lateAsked, lateApproval), (lateCreate.run (lateConnect.run {}), latePublish),
    (lateConnect.run {}, lateCreate), ({}, lateConnect)]

theorem late_installed (event : SessionEvent) : (lateTurn event).host.Installed := by
  intro role
  cases role <;> exact ⟨rfl, rfl⟩

theorem late_driven : Driven {} latePast (lateApproval.run lateAsked) := by
  have connecting : ∀ c role name answer, ¬ lateConnect.Asked c role name answer := by
    rintro c role name answer ⟨m, budget, cb, he, _, hcarries, _⟩
    cases he
    exact hcarries
  have creating : ∀ c role name answer, ¬ lateCreate.Asked c role name answer := by
    rintro c role name answer ⟨m, budget, cb, he, _, hcarries, _⟩
    cases he
    exact hcarries
  refine .turn _ (.turn _ (.turn _ (.turn _ .start (late_installed _) ?_) (late_installed _) ?_)
    (late_installed _) ?_) (late_installed _) ?_
  · exact fun _ _ _ h => absurd h (connecting _ _ _ _)
  · exact fun _ _ _ h => absurd h (creating _ _ _ _)
  · intro role name id _ e he n
    simp only [List.mem_cons, List.not_mem_nil, or_false] at he
    rcases he with rfl | rfl
    · exact creating _ _ _ _
    · exact connecting _ _ _ _
  · rintro role name id ⟨m, budget, cb, he, _⟩
    cases he

theorem authorization_sound_late :
    (lateApproval.run lateAsked).HoldsRole .publish "live" "cam" ∧
    Since (fun e before => ¬ e.1.HoldsRole .publish "live" "cam" ∧
        Granted e before .publish "live" "cam")
      (fun e => e.1.HoldsRole .publish "live" "cam") latePast := by
  have hrole : (lateApproval.run lateAsked).HoldsRole .publish "live" "cam" := by decide +kernel
  have hfresh : Conn.Untouched {} := ⟨rfl, fun role => by cases role <;> rfl⟩
  exact ⟨hrole, (authorization_sound hfresh late_driven).1 .publish "live" "cam" hrole⟩

end LibRtmp.Proofs
