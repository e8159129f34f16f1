import LibRtmp.Proofs.Authorization
import LibRtmp.Proofs.RunMoves

namespace LibRtmp.Proofs

open Actions
open Relation (ReflTransGen)

def ConnAct.allowedPublish (c : Conn) : ConnAct → Option String
  | .inbound (.message host (.command (.publish (some name))) _ _) =>
    if host.decision .publish c name = .allow then some name else none
  | .complete _ .publish requestId true =>
    (c.pendingAuth.publish.filter (fun p => p.requestId = requestId)).map PendingAuth.streamName
  | _ => none

/-- With deferred relay, a publish that starts over and gives up the frames queued before. -/
def Republishes (c : Conn) (act : ConnAct) : Prop :=
  ∃ name ∈ ConnAct.allowedPublish c act, DefersAway c name

instance (c : Conn) (act : ConnAct) : Decidable (Republishes c act) :=
  inferInstanceAs (Decidable (∃ name ∈ ConnAct.allowedPublish c act, DefersAway c name))

def IsInject : ConnAct → Prop
  | .inject _ _ _ _ => True
  | _ => False

def actCause (act : ConnAct) (s : Session) : Cause where
  permits _ _ := True
  asks _ _ _ := True
  claims := s.ledger.joined = true
  injects := IsInject act
  discards := Republishes s.conn act

section Acting

variable {codec : Codec} {s : Session}

theorem covers_act {m : PeerMessage} {budget : Nat} {socket : Socket} {host : Host}
    (hs : Seated s.ledger) :
    Covers (actCause (.inbound (.message host m budget socket)) s) (host.reading codec) s.conn m
      budget := by
  intro _ role name hcarries hadmits
  refine ⟨fun hallow => ⟨trivial, ?_, ?_⟩, fun _ _ => trivial⟩
  · exact hs.stream (by simpa [Session.ledger] using hadmits.stream)
  · rintro rfl haway
    cases m with
    | command command =>
      cases command with
      | publish n =>
        cases (show n = some name from hcarries)
        exact ⟨name, if_pos hallow, haway⟩
      | _ => exact hcarries.elim
    | _ => exact hcarries.elim

def Backs (cause : Cause) (codec : Codec) (c : Conn) : ConnAct → Prop
  | .inbound (.message host m budget _) => Covers cause (host.reading codec) c m budget
  | .complete _ role requestId allow => ∀ p, c.pendingAuth.get role = some p →
    p.requestId = requestId → allow = true → Entitles cause c role p.streamName
  | .inject _ _ _ _ => cause.injects ∧ (c.app ≠ "" → cause.claims)
  | _ => True

/-- A late decision takes the role that was asked for. -/
theorem backs_act (act : ConnAct) (hs : Seated s.ledger)
    (hn : IsInject act → s.conn.app ≠ "" → s.ledger.joined = true) :
    Backs (actCause act s) codec s.conn act := by
  cases act with
  | inbound event =>
    cases event with
    | message host m budget socket => exact covers_act hs
    | _ => trivial
  | complete host role requestId allow =>
    rintro p hp rfl rfl
    refine ⟨trivial, waiting_joined hs hp, ?_⟩
    rintro rfl haway
    have hp : s.conn.pendingAuth.publish = some p := hp
    exact ⟨p.streamName, by simp [ConnAct.allowedPublish, hp], haway⟩
  | inject host frameType timestamp payload => exact ⟨trivial, hn trivial⟩
  | _ => trivial

variable {cause : Cause}

theorem flush_tidies (c : Conn) (socket : Socket) : Tidies c (c.flush socket).2 := by
  unfold Conn.flush
  split
  · exact .refl c
  · split <;> exact ⟨rfl, .inl rfl⟩

/-- The flush after a message is not seen. -/
theorem flushed_walks {step : Ledger → Ledger → Prop} {o : Mandate} {host : Host}
    {msg : PeerMessage} {budget : Nat} (socket : Socket)
    (hm : Walks step o (handleMessage (host.reading codec) msg budget) s (fun _ _ => True)) :
    Walks step o (Inbound.action codec (.message host msg budget socket)) s (fun _ _ => True) := by
  refine moves_bind (hm.weaken fun _ t _ => walks_unseen ?_ (.tidy _ ?_) trivial)
  · split
    · rfl
    · exact (flush_aside t.conn socket).unseen t.routes
  · split
    · exact .refl _
    · exact flush_tidies _ socket

theorem obeys_orders {host : Host} {command : Command} {budget : Nat} {socket : Socket}
    (hb : budget ≠ 0) :
    Obeys (ConnAct.mandate s.conn (.inbound (.message host (.command command) budget socket)))
      s.conn (host.reading codec) command := by
  have hcommand : ConnAct.command (.inbound (.message host (.command command) budget socket)) =
      some command := if_neg hb
  refine ⟨rfl, ?_, ?_, ?_, ?_, ?_⟩
  · simp [ConnAct.mandate, hcommand]
  · intro hends
    simpa [ConnAct.mandate, ConnAct.orders, hcommand] using hends
  · rintro flag rfl
    simp [ConnAct.mandate, ConnAct.orders, hcommand]
  · intro hselects
    simpa [ConnAct.mandate, ConnAct.orders, hcommand] using hselects
  · exact fun role name hreq hadmits hallow => ⟨hb, hreq, hadmits, hallow⟩

/-- An act is all media or has none, unless the host supplies it. -/
theorem act_walks_apart (act : ConnAct) (hd : act ≠ .detach) (hi : ¬ IsInject act)
    (hb : Backs cause codec s.conn act) :
    Walks (Ledger.Step cause) (act.mandate s.conn) (act.action codec) s (fun _ _ => True) ∨
      Walks (Ledger.Queues cause) (act.mandate s.conn) (act.action codec) s
        (fun _ _ => True) := by
  cases act with
  | inbound event =>
    cases event with
    | start =>
      have hstart : Walks (Ledger.Step cause) (ConnAct.mandate s.conn (.inbound .start))
          (Inbound.action codec .start) s (fun _ _ => True) := by
        unfold Inbound.action
        exact walks_unseen rfl (.tidy _ ⟨rfl, .inl rfl⟩) trivial
      exact .inl (Moves.returning hstart false)
    | message host m budget socket =>
      by_cases hm : IsMedia m
      · have hmedia : m.isMedia = true := by
          cases m <;> first | rfl | exact hm.elim
        exact .inr (Moves.returning (flushed_walks socket
          (media_message_walks hmedia _ hm budget)) false)
      · refine .inl (Moves.returning (flushed_walks socket (other_message_walks hm hb ?_)) false)
        rintro command rfl hne
        exact obeys_orders hne
    | acknowledge sequence => exact .inl (Moves.returning (quiet_walks (quiet_control _ _)) false)
  | complete host role requestId allow =>
    refine .inl (Moves.returning (complete_authorization_walks ⟨?_, fun _ => rfl, fun _ => rfl⟩
      ?_) false)
    · simp [ConnAct.mandate, ConnAct.command]
    · exact fun p hp hid hallow => ⟨hb p hp hid hallow, rfl, hallow, p, hp, hid, rfl⟩
  | inject _ _ _ _ => exact absurd trivial hi
  | reap now timeout =>
    exact .inl (reap_walks (by simp [ConnAct.mandate, ConnAct.command]) _ timeout)
  | detach => exact absurd rfl hd

/-- Acting on a connection moves along the abstract session. -/
theorem act_walks (act : ConnAct) (hd : act ≠ .detach) (hb : Backs cause codec s.conn act) :
    Walks (Ledger.Acts cause) (act.mandate s.conn) (act.action codec) s (fun _ _ => True) := by
  by_cases hi : IsInject act
  · cases act with
    | inject _ _ _ _ => exact Moves.returning (inject_walks hb.1 hb.2 rfl) false
    | _ => exact hi.elim
  · rcases act_walks_apart act hd hi hb with hw | hw
    · exact hw.along fun _ _ => .inl
    · exact hw.along fun _ _ => .inr

theorem perform_path (codec : Codec) (act : ConnAct) (hd : act ≠ .detach) (hs : Seated s.ledger)
    (hn : s.conn.app ≠ "" → s.ledger.joined = true) :
    ReflTransGen (Ledger.Acts (actCause act s)) s.ledger (s.perform codec act).2.1.ledger :=
  (Walks.passes (act_walks act hd (backs_act act hs fun _ => hn))).1

end Acting

end LibRtmp.Proofs
