import LibRtmp.Media.InitCache
import LibRtmp.Proofs.Turns

namespace LibRtmp.Proofs

open Relation (ReflTransGen)

inductive HostOp where
  | turn (routes : Routes) (act : ConnAct)
  | assign (enabled : Bool)

def HostOp.apply (codec : Codec) (c : Conn) : HostOp → Conn
  | .turn routes act => c.turn codec routes act
  | .assign enabled => { c with relayEnabled := enabled }

def drive (codec : Codec) (c : Conn) (ops : List HostOp) : Conn :=
  ops.foldl (HostOp.apply codec) c

def Differs (c d : Conn) : Prop :=
  (d.isPublishing, d.isPlaying) ≠ (c.isPublishing, c.isPlaying) ∨
    d.currentStream.map Stream.name ≠ c.currentStream.map Stream.name

instance (c d : Conn) : Decidable (Differs c d) := inferInstanceAs (Decidable (_ ∨ _))

section Withdrawn

variable {o : Orders} {c d e : Conn} {role : Role} {name : String}

structure OnlyGrants (o : Orders) (role : Role) (name : String) : Prop where
  grants : ∀ r n, o.grants r n → r = role ∧ n = name
  ends : ¬ o.ends
  pauses : ∀ flag, ¬ o.pauses flag
  selects : ¬ o.selects
  loses : ¬ o.loses

theorem requests_once {command : Command} {r : Role} {n : String} (h : Requests command role name)
    (h' : Requests command r n) : r = role ∧ n = name := by
  cases command with
  | publish asked =>
    cases role <;> cases r <;> first | exact h.elim | exact h'.elim | skip
    cases h.symm.trans h'
    exact ⟨rfl, rfl⟩
  | play asked =>
    cases role <;> cases r <;> first | exact h.elim | exact h'.elim | skip
    cases h.symm.trans h'
    exact ⟨rfl, rfl⟩
  | _ => exact h.elim

/-- An act that grants a role grants no other. -/
theorem grant_only {act : ConnAct} (h : Grants c act role name) :
    OnlyGrants (act.orders c) role name := by
  cases act with
  | inbound event =>
    cases event with
    | message host m budget socket =>
      obtain ⟨hb, hcarries, _⟩ := h
      cases m with
      | command command =>
        have hcommand : command.endsRole = false ∧ command.selects = false := by
          cases command <;> first | exact hcarries.elim | exact ⟨rfl, rfl⟩
        obtain ⟨hends, hselects⟩ := hcommand
        refine ⟨fun r n hgrants => requests_once hcarries hgrants.2.1, ?_, ?_, ?_, ?_⟩
        · simp [ConnAct.orders, ConnAct.command, hb, hends]
        · intro flag hflag
          cases command <;> first
            | exact hcarries.elim
            | simp [ConnAct.orders, ConnAct.command, hb] at hflag
        · simp [ConnAct.orders, ConnAct.command, hb, hselects]
        · simp [ConnAct.orders]
      | _ => exact hcarries.elim
    | _ => exact h.elim
  | complete host r requestId allow =>
    obtain ⟨rfl, _, p, hp, _, rfl⟩ := h
    refine ⟨?_, ?_, ?_, ?_, ?_⟩
    · rintro _ _ ⟨rfl, _, q, hq, _, rfl⟩
      cases hp.symm.trans hq
      exact ⟨rfl, rfl⟩
    all_goals simp [ConnAct.orders, ConnAct.command]
  | _ => exact h.elim

def relayAfter (c : Conn) (role : Role) (name : String) : Bool :=
  c.relayEnabled && !(decide (role = .publish) && (c.isPlaying ||
    (c.isPublishing && c.currentStream.all (fun s => s.name ≠ name))))

def Amid (c : Conn) (role : Role) (name : String) (d : Conn) : Prop :=
  d.deferMediaRelay = true ∧
    ((d.currentStream = c.currentStream ∧ d.relayEnabled = c.relayEnabled) ∨
      (d.currentStream = c.currentStream.map (fun s => s.takeRole role name) ∧
        d.relayEnabled = relayAfter c role name))

theorem take_role_twice (s : Stream) (role : Role) (name : String) :
    (s.takeRole role name).takeRole role name = s.takeRole role name := by
  cases role <;> rfl

/-- Granting what is held already changes nothing. -/
theorem relay_after_again (hd : d.currentStream = c.currentStream.map
    (fun s => s.takeRole role name)) : relayAfter d role name = d.relayEnabled := by
  unfold relayAfter Conn.isPlaying Conn.isPublishing
  rw [hd]
  cases role <;> cases c.currentStream <;> simp [Stream.takeRole]

theorem amid_grant (hd : Amid c role name d) (hdefer : e.deferMediaRelay = true)
    (hs : e.currentStream = d.currentStream.map (fun s => s.takeRole role name))
    (hr : e.relayEnabled = relayAfter d role name) : Amid c role name e := by
  refine ⟨hdefer, .inr ?_⟩
  rcases hd.2 with ⟨hstream, hrelay⟩ | ⟨hstream, hrelay⟩
  · refine ⟨by rw [hs, hstream], hr.trans ?_⟩
    unfold relayAfter Conn.isPlaying Conn.isPublishing
    rw [hstream, hrelay]
  · refine ⟨?_, by rw [hr, relay_after_again hstream, hrelay]⟩
    rw [hs, hstream, Option.map_map]
    congr 1
    funext s
    exact take_role_twice s role name

theorem reset_deferred_withdraws (hdefer : c.deferMediaRelay = true) (name : String) :
    (c.resetDeferredRelay name).deferMediaRelay = true ∧
      (c.resetDeferredRelay name).relayEnabled = relayAfter c .publish name := by
  unfold Conn.resetDeferredRelay relayAfter
  rw [if_pos hdefer]
  split
  · rename_i haway
    refine ⟨hdefer, ?_⟩
    simp only [decide_true, Bool.true_and]
    rw [show (c.isPlaying || (c.isPublishing && c.currentStream.all fun s => s.name ≠ name)) = true
      by simpa using haway]
    simp
  · rename_i hstays
    refine ⟨hdefer, ?_⟩
    simp only [decide_true, Bool.true_and]
    rw [show (c.isPlaying || (c.isPublishing && c.currentStream.all fun s => s.name ≠ name)) = false
      by simpa using hstays]
    simp

theorem start_publishing_amid {now : Nat} (hd : Amid c .publish name d) :
    Amid c .publish name (d.startPublishing now name) := by
  obtain ⟨hstream, hrelay, hdefer, _⟩ := arm_deadline_keeps d now (d.nextRouteKey name)
  have hstanding := @start_publishing_standing d now name
  generalize d.armPublishDeadline now (d.nextRouteKey name) = a at hstream hrelay hdefer hstanding
  obtain ⟨hdefer', hrelay'⟩ := reset_deferred_withdraws (hdefer.trans hd.1) name
  refine amid_grant hd ?_ ?_ ?_
  · exact (congrArg Standing.deferMediaRelay hstanding).trans hdefer'
  · exact start_publishing_stream
  · refine (congrArg Standing.relayEnabled hstanding).trans (hrelay'.trans ?_)
    unfold relayAfter Conn.isPlaying Conn.isPublishing
    rw [hstream, hrelay]

theorem start_playing_amid {now : Nat} (hd : Amid c .play name d) :
    Amid c .play name (d.startPlaying now name) := by
  have hstanding := @start_playing_standing d now name
  refine amid_grant hd ?_ ?_ ?_
  · exact (congrArg Standing.deferMediaRelay hstanding).trans hd.1
  · exact congrArg Standing.stream hstanding
  · refine (congrArg Standing.relayEnabled hstanding).trans ?_
    simp [relayAfter, Conn.standing]

theorem amid_same (hd : Amid c role name d) (hdefer : e.deferMediaRelay = d.deferMediaRelay)
    (hs : e.currentStream = d.currentStream) (hr : e.relayEnabled = d.relayEnabled) :
    Amid c role name e := by
  unfold Amid at hd ⊢
  rwa [hdefer, hs, hr]

theorem amid_step (ho : OnlyGrants o role name) (hd : Amid c role name d)
    (hs : Conn.Step o d e) : Amid c role name e := by
  cases hs with
  | routine h =>
    exact amid_same hd (congrArg Standing.deferMediaRelay h.1) h.stream
      (congrArg Standing.relayEnabled h.1)
  | deed h =>
    cases h with
    | enable h => exact absurd (hd.1.symm.trans h) (by decide)
    | publish n h =>
      obtain ⟨rfl, rfl⟩ := ho.grants _ _ h
      exact start_publishing_amid hd
    | play n h =>
      obtain ⟨rfl, rfl⟩ := ho.grants _ _ h
      exact start_playing_amid hd
    | rearm n _ =>
      unfold Conn.releasePublishDeadline
      split
      · exact hd
      · exact hd
    | close h => exact absurd h ho.ends
    | replace _ h => exact absurd h ho.ends
    | pause flag h => exact absurd h (ho.pauses flag)
    | select _ _ h => exact absurd h ho.selects
    | lose h => exact absurd h ho.loses
    | _ => exact hd

theorem amid_turn (codec : Codec) (routes : Routes) {act : ConnAct}
    (hdefer : c.deferMediaRelay = true) (hg : Grants c act role name) :
    Amid c role name (c.turn codec routes act) := by
  have hpath := turn_steps codec c routes act
  generalize c.turn codec routes act = d at hpath
  induction hpath with
  | refl => exact ⟨hdefer, .inl ⟨rfl, rfl⟩⟩
  | tail _ hs ih => exact amid_step (grant_only hg) ih hs

end Withdrawn

section Withheld

variable {o : Orders} {c d : Conn}

theorem amid_withholds {role : Role} {name : String} (hd : Amid c role name d) :
    d.deferMediaRelay = true ∧ (c.relayEnabled = false → d.relayEnabled = false) := by
  refine ⟨hd.1, fun hoff => ?_⟩
  rcases hd.2 with ⟨_, hrelay⟩ | ⟨_, hrelay⟩
  · exact hrelay.trans hoff
  · rw [hrelay]
    unfold relayAfter
    rw [hoff, Bool.false_and]

/-- With deferred relay no step approves it. -/
theorem withheld_step (hdefer : c.deferMediaRelay = true) (hs : Conn.Step o c d) :
    d.deferMediaRelay = true ∧ (c.relayEnabled = false → d.relayEnabled = false) := by
  cases hs with
  | routine h =>
    refine ⟨(congrArg Standing.deferMediaRelay h.1).trans hdefer, fun hoff => ?_⟩
    exact (congrArg Standing.relayEnabled h.1).trans hoff
  | deed h =>
    cases h with
    | enable h => exact absurd (hdefer.symm.trans h) (by decide)
    | publish name _ =>
      exact amid_withholds (start_publishing_amid ⟨hdefer, .inl ⟨rfl, rfl⟩⟩)
    | play name _ => exact amid_withholds (start_playing_amid ⟨hdefer, .inl ⟨rfl, rfl⟩⟩)
    | rearm n _ =>
      unfold Conn.releasePublishDeadline
      split <;> exact ⟨hdefer, fun hoff => hoff⟩
    | close _ =>
      obtain ⟨hoff, hsame, _⟩ := ended_keeps c.standing o.now
        (c.isActive && c.teardownRefreshesSetupTimer)
      exact ⟨(congrArg Standing.deferMediaRelay end_role_standing).trans (hsame.trans hdefer),
        fun _ => (congrArg Standing.relayEnabled end_role_standing).trans hoff⟩
    | replace count _ =>
      obtain ⟨hoff, hsame, _⟩ := ended_keeps c.standing o.now
        (c.isActive && c.teardownRefreshesSetupTimer)
      obtain ⟨_, hopen⟩ := @open_stream_standing c o.now count
      exact ⟨(congrArg Standing.deferMediaRelay hopen).trans (hsame.trans hdefer),
        fun _ => (congrArg Standing.relayEnabled hopen).trans hoff⟩
    | pause flag _ =>
      exact ⟨(congrArg Standing.deferMediaRelay set_paused_standing).trans hdefer,
        fun hoff => (congrArg Standing.relayEnabled set_paused_standing).trans hoff⟩
    | lose _ => exact ⟨hdefer, fun _ => rfl⟩
    | _ => exact ⟨hdefer, fun hoff => hoff⟩

theorem withheld_turn (codec : Codec) (routes : Routes) (act : ConnAct)
    (hdefer : c.deferMediaRelay = true) :
    (c.turn codec routes act).deferMediaRelay = true ∧
      (c.relayEnabled = false → (c.turn codec routes act).relayEnabled = false) := by
  have hpath := turn_steps codec c routes act
  generalize c.turn codec routes act = d at hpath
  induction hpath with
  | refl => exact ⟨hdefer, fun hoff => hoff⟩
  | tail _ hs ih =>
    obtain ⟨hdefer', hoff'⟩ := withheld_step ih.1 hs
    exact ⟨hdefer', fun hoff => hoff' (ih.2 hoff)⟩

theorem drive_defers (codec : Codec) (ops : List HostOp) (hdefer : c.deferMediaRelay = true) :
    (drive codec c ops).deferMediaRelay = true := by
  induction ops generalizing c with
  | nil => exact hdefer
  | cons op ops ih =>
    cases op with
    | turn routes act => exact ih (withheld_turn codec routes act hdefer).1
    | assign enabled => exact ih hdefer

/-- Only the host approves. -/
theorem drive_withholds (codec : Codec) (ops : List HostOp) (hdefer : c.deferMediaRelay = true)
    (hoff : c.relayEnabled = false) (ha : HostOp.assign true ∉ ops) :
    (drive codec c ops).relayEnabled = false := by
  induction ops generalizing c with
  | nil => exact hoff
  | cons op ops ih =>
    have hrest : HostOp.assign true ∉ ops := fun h => ha (List.mem_cons_of_mem _ h)
    cases op with
    | turn routes act =>
      obtain ⟨hdefer', hoff'⟩ := withheld_turn codec routes act hdefer
      exact ih hdefer' (hoff' hoff) hrest
    | assign enabled =>
      have henabled : enabled = false := by
        cases enabled with
        | false => rfl
        | true => exact absurd List.mem_cons_self ha
      exact ih hdefer henabled hrest

end Withheld

section Approval

variable {c d : Conn} {role : Role} {name : String}

def TakesOver (c : Conn) (role : Role) : Prop :=
  role = .publish ∧ (c.isPlaying = true ∨ c.isPublishing = true)

instance (c : Conn) (role : Role) : Decidable (TakesOver c role) :=
  inferInstanceAs (Decidable (_ ∧ _))

theorem differs_withdraws (hd : Amid c role name d) (hc : Differs c d) :
    d.relayEnabled = false ↔ c.relayEnabled = false ∨ TakesOver c role := by
  unfold Differs Conn.isPublishing Conn.isPlaying at hc
  rcases hd.2 with ⟨hstream, _⟩ | ⟨hstream, hrelay⟩
  · rw [hstream] at hc
    simp at hc
  · rw [hrelay]
    rw [hstream] at hc
    unfold relayAfter TakesOver Conn.isPublishing Conn.isPlaying
    cases hs : c.currentStream with
    | none => simp [hs] at hc
    | some st =>
      rw [hs] at hc
      cases role with
      | play => simp
      | publish =>
        simp only [Option.map_some, Option.getD_some, Stream.takeRole] at hc ⊢
        cases hplay : st.isPlaying with
        | true => simp
        | false =>
          cases hpub : st.isPublishing with
          | false => simp
          | true =>
            -- The role stays, so the name is what differs.
            have hname : st.name ≠ name := by
              rintro rfl
              simp [hplay, hpub] at hc
            simp [hname]

/-- Of a grant that changes the role or the name, the approval is withdrawn until the host gives
it again just if there was none, or the grant is a publish that takes over from another role. -/
theorem grant_withdraws_approval (codec : Codec) (start : Conn) (ops : List HostOp)
    (routes : Routes) (act : ConnAct) (role : Role) (name : String)
    (hdefer : start.deferMediaRelay = true) (hg : Grants (drive codec start ops) act role name)
    (hc : Differs (drive codec start ops) ((drive codec start ops).turn codec routes act)) :
    (∀ later, HostOp.assign true ∉ later →
      (drive codec start (ops ++ .turn routes act :: later)).relayEnabled = false) ↔
      ((drive codec start ops).relayEnabled = false ∨ TakesOver (drive codec start ops) role) := by
  have hdefer' := drive_defers codec ops hdefer
  have hafter : ∀ later, drive codec start (ops ++ .turn routes act :: later) =
      drive codec ((drive codec start ops).turn codec routes act) later := by
    intro later
    unfold drive
    rw [List.foldl_append]
    rfl
  have hamid := amid_turn codec routes hdefer' hg
  simp only [hafter]
  generalize drive codec start ops = c at *
  rw [← differs_withdraws hamid hc]
  constructor
  · intro h
    exact h [] List.not_mem_nil
  · intro hoff later hlater
    exact drive_withholds codec later hamid.1 hoff hlater

def asks (command : Command) : ConnAct := .inbound (.message {} (.command command) 10 [])

def approvedOps (name : String) : List HostOp :=
  [.turn ∅ (asks (.connect (.ok ⟨{ info := { transactionId := 1 } }, some "live"⟩))),
    .turn ∅ (asks (.createStream (some 2) true)), .turn ∅ (asks (.publish (some name))),
    .assign true]

/-- A publish under another name takes the approval away. -/
theorem renaming_withdraws_approval :
    (drive mediaCodec { deferMediaRelay := true } (approvedOps "a")).relayEnabled = true ∧
      ∀ later, HostOp.assign true ∉ later →
        (drive mediaCodec { deferMediaRelay := true }
          (approvedOps "a" ++ .turn ∅ (asks (.publish (some "b"))) :: later)).relayEnabled =
            false := by
  refine ⟨by decide +kernel, (grant_withdraws_approval mediaCodec { deferMediaRelay := true }
    (approvedOps "a") ∅ (asks (.publish (some "b"))) .publish "b" rfl ?_ ?_).mpr ?_⟩
  · exact ⟨by decide, rfl, by decide +kernel⟩
  · decide +kernel
  · exact .inr (by decide +kernel)

/-- A play under another name does not: the publisher becomes a player that is still approved. -/
theorem play_keeps_approval :
    let published := drive mediaCodec { deferMediaRelay := true } (approvedOps "a")
    let played := published.turn mediaCodec ∅ (asks (.play (some "b")))
    Grants published (asks (.play (some "b"))) .play "b" ∧ Differs published played ∧
      played.deferMediaRelay = true ∧ played.relayEnabled = true := by
  refine ⟨⟨by decide, rfl, ?_⟩, ?_⟩ <;> decide +kernel

end Approval

end LibRtmp.Proofs
