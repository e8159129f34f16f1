import LibRtmp.Session.Command

namespace LibRtmp.Proofs

open Actions

/-- A relation of sessions in which nothing shows that is sent. -/
structure OutputBlind (R : Session → Session → Prop) : Prop where
  refl : ∀ s, R s s
  trans : ∀ {s t u}, R s t → R t u → R s u
  sends : ∀ w s, R s ((sending w).on s).2
  announces : ∀ size (s : Session), R s { s with conn := { s.conn with activeChunkSize := size } }

section Sending

variable {R : Session → Session → Prop} {α β : Type}

/-- Code that stays within a relation, whether it returns or stops. -/
def Confined (R : Session → Session → Prop) (m : ConnM α) : Prop := ∀ s, R s (m.on s).2

theorem confined_bind (hR : OutputBlind R) {m : ConnM α} {f : α → ConnM β} (hm : Confined R m)
    (hf : ∀ a, Confined R (f a)) : Confined R (m >>= f) := by
  intro s
  have h := hm s
  rw [Action.on_bind]
  generalize m.on s = r at h
  obtain ⟨r, t⟩ := r
  cases r with
  | error e => exact h
  | ok a => exact hR.trans h (hf a t)

theorem confined_pure (hR : OutputBlind R) (a : α) : Confined R (pure a : ConnM α) := hR.refl

theorem confined_get (hR : OutputBlind R) : Confined R (get : ConnM Session) := hR.refl

theorem confined_control (hR : OutputBlind R) (ty : UInt8) (data : List UInt8) :
    Confined R (sendControl ty data) := hR.sends _

theorem confined_command (hR : OutputBlind R) (msgStreamId : UInt32) (amf : List UInt8) :
    Confined R (sendCommand msgStreamId amf) := hR.sends _

theorem confined_user_control (hR : OutputBlind R) (event : Nat) (params : List UInt32) :
    Confined R (sendUserControl event params) := confined_control hR _ _

theorem confined_status (hR : OutputBlind R) (streamId : UInt32) (level code description : String) :
    Confined R (sendOnStatus streamId level code description) := confined_command hR _ _

theorem confined_error (hR : OutputBlind R) (txn : UInt64) (code description : String) :
    Confined R (sendCommandError txn code description) := confined_command hR _ _

theorem confined_denied (hR : OutputBlind R) (role : Role) : Confined R (sendDenied role) := by
  cases role with
  | publish => exact confined_status hR _ _ _ _
  | play => exact confined_status hR _ _ _ _

theorem confined_connect_response (hR : OutputBlind R) (txn : UInt64)
    (caps : Option Ertmp.NegotiatedCaps) : Confined R (sendConnectResponse txn caps) := by
  refine confined_bind hR (confined_control hR _ _) fun _ => ?_
  refine confined_bind hR (confined_control hR _ _) fun _ => ?_
  refine confined_bind hR (confined_get hR) fun _ => ?_
  refine confined_bind hR (confined_control hR _ _) fun _ => ?_
  have hsize : Confined R (modifyConn (fun c => { c with activeChunkSize := c.chunkSize })) :=
    fun s => hR.announces s.conn.chunkSize s
  refine confined_bind hR hsize fun _ => ?_
  split
  · exact hR.refl
  · exact confined_command hR _ _

theorem confined_lifecycle_begin (hR : OutputBlind R) (sid : UInt32) :
    Confined R (sendStreamLifecycleBegin sid) :=
  confined_bind hR (confined_user_control hR _ _) fun _ =>
    confined_bind hR (confined_get hR) fun _ => confined_user_control hR _ _

/-- The stream name of a request is returned only when there is a stream to put it on. -/
theorem confined_read_stream_name (hR : OutputBlind R) (role : Role) (name : Option String)
    (s : Session) :
    R s ((readStreamName role name).on s).2 ∧
      ∀ n, ((readStreamName role name).on s).1 = .ok (some n) →
        ((readStreamName role name).on s).2 = s ∧ name = some n ∧ n ≠ "" ∧
          s.conn.currentStream.isSome = true := by
  have refused : ∀ code description, R s
      ((sendOnStatus 0 "error" code description >>= fun _ =>
        (pure none : ConnM (Option String))).on s).2 ∧
      ∀ n, ((sendOnStatus 0 "error" code description >>= fun _ =>
        (pure none : ConnM (Option String))).on s).1 ≠ .ok (some n) := by
    intro code description
    refine ⟨confined_bind hR (confined_status hR _ _ _ _) (fun _ => confined_pure hR _) s, ?_⟩
    intro n hn
    rw [Action.on_bind] at hn
    generalize (sendOnStatus 0 "error" code description).on s = r at hn
    obtain ⟨r, t⟩ := r
    cases r <;> cases hn
  unfold readStreamName
  rw [Action.on_bind, Action.on_get]
  dsimp only
  split
  · exact ⟨(refused _ _).1, fun n hn => absurd hn ((refused _ _).2 n)⟩
  · split
    · exact ⟨(refused _ _).1, fun n hn => absurd hn ((refused _ _).2 n)⟩
    · rename_i hname
      split
      · exact ⟨(refused _ _).1, fun n hn => absurd hn ((refused _ _).2 n)⟩
      · rename_i hs
        refine ⟨hR.refl s, fun n hn => ?_⟩
        cases hn
        exact ⟨rfl, rfl, hname, Option.isSome_iff_ne_none.mpr (by simpa using hs)⟩

end Sending

end LibRtmp.Proofs
