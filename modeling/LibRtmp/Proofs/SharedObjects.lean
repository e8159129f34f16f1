import LibRtmp.Message.SharedObject
import LibRtmp.Proofs.AmfWrite

namespace LibRtmp.Proofs

open Actions Parsing SharedObject WriteM

section Codes

theorem to_byte_from_byte (b : UInt8) : (SharedObjectEventType.fromByte b).toByte = b := by
  unfold SharedObjectEventType.fromByte
  split
  case h_12 => rfl
  all_goals
    rename_i h
    exact UInt8.toNat_inj.mp h.symm

theorem from_byte_to_byte {ty : SharedObjectEventType} (h : ty.Canonical) :
    SharedObjectEventType.fromByte ty.toByte = ty := by
  cases ty with
  | unknown b =>
    unfold SharedObjectEventType.Canonical at h
    change SharedObjectEventType.fromByte b = .unknown b
    unfold SharedObjectEventType.fromByte
    split
    case h_12 => rfl
    all_goals
      rename_i hb
      exact absurd ⟨by omega, by omega⟩ h
  | _ => rfl

end Codes

section Events

variable {event : SharedObjectEvent} {events : List SharedObjectEvent}

def eventBytes (event : SharedObjectEvent) : List UInt8 :=
  [event.eventType.toByte] ++ (Bytes.toBe 4 event.data.length ++ event.data)

theorem event_reads (h : event.data.length ≤ maxSoEventDataBytes) (hc : event.eventType.Canonical) :
    Reads Buffer.peek readEvent (eventBytes event) event := by
  have hlen : event.data.length < 256 ^ 4 := Nat.lt_of_le_of_lt h (by decide)
  refine (reads_bytes .amf (d := [event.eventType.toByte]) rfl).bind
    ((reads_be .amf hlen).bind (reads_guarded (Nat.not_lt.mpr h) (Nat.le_refl _) ?_))
  have hty : .fromByte ([event.eventType.toByte].headD 0) = event.eventType :=
    from_byte_to_byte hc
  rw [hty]
  exact (reads_bytes .amf rfl).map (SharedObjectEvent.mk event.eventType)

theorem event_sound : Sound Buffer.peek readEvent
    (fun event d => event.data.length ≤ maxSoEventDataBytes ∧ d = eventBytes event) := by
  refine (sound_bytes .amf 1).bind fun ty d hty => ?_
  obtain ⟨rfl, hone⟩ := hty
  obtain ⟨b, rfl⟩ := List.length_eq_one_iff.mp hone
  refine (sound_be .amf 4).bind fun len d hlen => sound_guarded fun hfits => ?_
  obtain ⟨-, rfl⟩ := hlen
  refine (sound_bytes .amf len).bind fun data d hdata => sound_pure ?_
  obtain ⟨rfl, rfl⟩ := hdata
  refine ⟨Nat.not_lt.mp hfits, ?_⟩
  rw [eventBytes, List.append_nil]
  exact congrArg (fun b => [b] ++ _) (to_byte_from_byte b).symm

theorem event_bytes_ne_nil (event : SharedObjectEvent) : eventBytes event ≠ [] :=
  List.cons_ne_nil _ _

/-- Events that were written are read back. -/
theorem events_read (hdata : ∀ e ∈ events, e.data.length ≤ maxSoEventDataBytes)
    (hc : ∀ e ∈ events, e.eventType.Canonical) {allowed : Nat} (hlen : events.length ≤ allowed)
    (b : Buffer) (hb : b.peek = events.flatMap eventBytes) :
    ((readEvents allowed).on b).1 = .ok events := by
  induction events generalizing allowed b with
  | nil =>
    rw [readEvents.eq_def, Action.on_bind, Action.on_get]
    dsimp only
    have hnone : ¬ b.available > 0 := by
      rw [Buffer.available_eq, hb]
      exact Nat.lt_irrefl 0
    rw [if_neg hnone]
    rfl
  | cons event events ih =>
    obtain ⟨allowed, rfl⟩ : ∃ k, allowed = k + 1 := ⟨allowed - 1, by
      rw [List.length_cons] at hlen
      omega⟩
    have hsome : b.available > 0 := by
      rw [Buffer.available_eq, hb, List.flatMap_cons, List.length_append]
      have hevent := List.length_pos_iff.mpr (event_bytes_ne_nil event)
      omega
    rw [readEvents.eq_def, Action.on_bind, Action.on_get]
    dsimp only
    rw [if_pos hsome]
    obtain ⟨t, ht, hon⟩ := (event_reads (hdata event List.mem_cons_self)
      (hc event List.mem_cons_self)).then_on
      (fun event => do
        let events ← readEvents allowed
        pure (event :: events)) hb
    have hrest := ih (fun e he => hdata e (List.mem_cons_of_mem _ he))
      (fun e he => hc e (List.mem_cons_of_mem _ he)) (Nat.le_of_succ_le_succ hlen) t ht
    rw [hon, Action.on_bind]
    generalize (readEvents allowed).on t = r at hrest
    obtain ⟨r, u⟩ := r
    dsimp only at hrest
    subst hrest
    rfl

/-- Only written events are read. -/
theorem events_sound (allowed : Nat) (b : Buffer) (events : List SharedObjectEvent)
    (hok : ((readEvents allowed).on b).1 = .ok events) : events.length ≤ allowed ∧
      (∀ e ∈ events, e.data.length ≤ maxSoEventDataBytes) ∧
      b.peek = events.flatMap eventBytes := by
  induction allowed generalizing b events with
  | zero =>
    rw [readEvents.eq_def, Action.on_bind, Action.on_get] at hok
    dsimp only at hok
    split at hok
    · cases hok
    · rename_i hnone
      rw [Buffer.available_eq] at hnone
      cases hok
      exact ⟨Nat.le_refl 0, by simp, List.eq_nil_of_length_eq_zero (by omega)⟩
  | succ allowed ih =>
    rw [readEvents.eq_def, Action.on_bind, Action.on_get] at hok
    dsimp only at hok
    split at hok
    · obtain ⟨event, hevent, hok, -⟩ := bind_ok hok
      obtain ⟨rest, hrest, hok, -⟩ := bind_ok hok
      cases hok
      obtain ⟨d, hd, hfits, rfl⟩ := event_sound b event hevent
      obtain ⟨hlen, hall, hpeek⟩ := ih _ rest hrest
      refine ⟨Nat.succ_le_succ hlen, ?_, by rw [hd, hpeek, List.flatMap_cons]⟩
      exact List.forall_mem_cons.mpr ⟨hfits, hall⟩
    · rename_i hnone
      rw [Buffer.available_eq] at hnone
      cases hok
      exact ⟨Nat.zero_le _, by simp, List.eq_nil_of_length_eq_zero (by omega)⟩

theorem events_append (h : ∀ e ∈ events, e.data.length ≤ maxSoEventDataBytes) :
    Appends (writeEvents events) (events.flatMap eventBytes) () := by
  induction events with
  | nil => exact appends_pure ()
  | cons event events ih =>
    obtain ⟨hevent, hrest⟩ := List.forall_mem_cons.mp h
    rw [writeEvents, if_neg (Nat.not_lt.mpr hevent), List.flatMap_cons, eventBytes,
      List.append_assoc, List.append_assoc]
    exact (appends_write _).bind ((appends_write _).bind ((appends_write _).bind (ih hrest)))

theorem events_emit (events : List SharedObjectEvent) :
    Emits Buffer.peek (writeEvents events)
      (fun _ _ => ∀ e ∈ events, e.data.length ≤ maxSoEventDataBytes) := by
  induction events with
  | nil => exact emits_pure (by simp)
  | cons event events ih =>
    rw [writeEvents]
    split
    · exact emits_throw _
    · rename_i hevent
      refine emits_then _ (emits_then _ (emits_then _ (ih.mono fun _ _ hrest => ?_)))
      exact List.forall_mem_cons.mpr ⟨Nat.not_lt.mp hevent, hrest⟩

theorem events_length (h : ∀ e ∈ events, e.data.length ≤ maxSoEventDataBytes) :
    (events.flatMap eventBytes).length ≤ events.length * (maxSoEventDataBytes + 5) := by
  induction events with
  | nil => exact Nat.zero_le _
  | cons event events ih =>
    obtain ⟨hevent, hrest⟩ := List.forall_mem_cons.mp h
    have hone : (eventBytes event).length = event.data.length + 5 := by
      rw [eventBytes, List.length_append, List.length_append, Bytes.to_be_length,
        List.length_singleton]
      omega
    rw [List.flatMap_cons, List.length_append, hone, List.length_cons, Nat.succ_mul]
    have htail := ih hrest
    omega

end Events

section Messages

variable {msg : SharedObjectMessage}

def nameBytes (name : String) : List UInt8 := name.toUTF8.data.toList

def objectBytes (msg : SharedObjectMessage) (reserved : Nat) : List UInt8 :=
  (Bytes.toBe 2 msg.name.utf8ByteSize ++ nameBytes msg.name) ++ (Bytes.toBe 4 msg.version.toNat ++
    (Bytes.toBe 4 msg.flags.toNat ++ (Bytes.toBe 4 reserved ++ msg.events.flatMap eventBytes)))

theorem name_bytes_length (name : String) : (nameBytes name).length = name.utf8ByteSize := rfl

theorem name_reads (name : String) (h : name.utf8ByteSize ≤ maxSoNameBytes) :
    Reads Buffer.peek readName (Bytes.toBe 2 name.utf8ByteSize ++ nameBytes name) name := by
  have hlen : name.utf8ByteSize < 256 ^ 2 := Nat.lt_of_le_of_lt h (by decide)
  refine (reads_be .amf hlen).bind (reads_guarded (Nat.not_lt.mpr h)
    (Nat.le_of_eq (name_bytes_length name).symm) ?_)
  have hname : String.fromUTF8? ⟨⟨nameBytes name⟩⟩ = some name := dif_pos name.isValidUTF8
  rw [← List.append_nil (nameBytes name)]
  refine (reads_bytes .amf (name_bytes_length name)).bind ?_
  rw [hname]
  exact reads_pure name

theorem name_sound : Sound Buffer.peek readName (fun name d =>
    name.utf8ByteSize ≤ maxSoNameBytes ∧
      d = Bytes.toBe 2 name.utf8ByteSize ++ nameBytes name) := by
  refine (sound_be .amf 2).bind fun len d hlen => sound_guarded fun hfits => ?_
  obtain ⟨-, rfl⟩ := hlen
  refine (sound_bytes .amf len).bind fun bytes d hbytes => ?_
  obtain ⟨hd, rfl⟩ := hbytes
  subst hd
  by_cases hvalid : ByteArray.IsValidUTF8 ⟨⟨bytes⟩⟩
  · rw [String.fromUTF8?, dif_pos hvalid]
    refine sound_pure ⟨Nat.not_lt.mp hfits, ?_⟩
    rw [List.append_nil]
    rfl
  · rw [String.fromUTF8?, dif_neg hvalid]
    exact sound_throw _

/-- The message is read back, whatever the reserved word. -/
theorem message_read (hfits : msg.Fits) (hc : ∀ e ∈ msg.events, e.eventType.Canonical)
    {reserved : Nat} (hr : reserved < 256 ^ 4) (b : Buffer)
    (hb : b.peek = objectBytes msg reserved) : (readMessage.on b).1 = .ok msg := by
  unfold readMessage
  obtain ⟨b₁, hb₁, hon⟩ := (name_reads msg.name hfits.name).then_on _ hb
  rw [hon]
  obtain ⟨b₂, hb₂, hon⟩ := (reads_be .amf (UInt32.toNat_lt msg.version)).then_on _ hb₁
  rw [hon]
  obtain ⟨b₃, hb₃, hon⟩ := (reads_be .amf (UInt32.toNat_lt msg.flags)).then_on _ hb₂
  rw [hon]
  obtain ⟨b₄, hb₄, hon⟩ := (reads_be .amf hr).then_on _ hb₃
  rw [hon, Action.on_bind]
  have hevents := events_read hfits.data hc hfits.events b₄ hb₄
  generalize (readEvents maxSoEvents).on b₄ = r at hevents
  obtain ⟨r, u⟩ := r
  dsimp only at hevents
  subst hevents
  simp

theorem message_sound {b : Buffer} (hok : (readMessage.on b).1 = .ok msg) :
    msg.Fits ∧ ∃ reserved, b.peek = objectBytes msg reserved := by
  obtain ⟨name, hname, hok, -⟩ := bind_ok hok
  obtain ⟨version, hversion, hok, -⟩ := bind_ok hok
  obtain ⟨flags, hflags, hok, -⟩ := bind_ok hok
  obtain ⟨reserved, hreserved, hok, -⟩ := bind_ok hok
  obtain ⟨events, hevents, hok, -⟩ := bind_ok hok
  obtain ⟨d, hd, hfits, rfl⟩ := name_sound b name hname
  obtain ⟨d, hd₁, hv, rfl⟩ := sound_be .amf 4 _ version hversion
  obtain ⟨d, hd₂, hf, rfl⟩ := sound_be .amf 4 _ flags hflags
  obtain ⟨d, hd₃, -, rfl⟩ := sound_be .amf 4 _ reserved hreserved
  obtain ⟨hlen, hall, hpeek⟩ := events_sound maxSoEvents _ events hevents
  cases hok
  refine ⟨⟨hfits, hlen, hall⟩, reserved, ?_⟩
  rw [hd, hd₁, hd₂, hd₃, hpeek, objectBytes]
  dsimp only
  rw [UInt32.toNat_ofNat_of_lt' hv, UInt32.toNat_ofNat_of_lt' hf]

theorem message_fits (h : msg.Fits) : (objectBytes msg 0).length ≤ bufferMaxSize := by
  have hname := h.name
  have hfew : msg.events.length * (maxSoEventDataBytes + 5) ≤
      maxSoEvents * (maxSoEventDataBytes + 5) := Nat.mul_le_mul_right _ h.events
  have hevents := events_length h.data
  have hmax : 2 + maxSoNameBytes + 12 + maxSoEvents * (maxSoEventDataBytes + 5) ≤ bufferMaxSize := by
    decide
  simp only [objectBytes, List.length_append, Bytes.to_be_length, name_bytes_length]
  omega

theorem message_appends (h : msg.Fits) : Appends (write msg) (objectBytes msg 0) () := by
  rw [write, if_neg (Nat.not_lt.mpr h.name), if_neg (Nat.not_lt.mpr h.events), objectBytes,
    List.append_assoc]
  exact (appends_write _).bind ((appends_write _).bind ((appends_write _).bind
    ((appends_write _).bind ((appends_write _).bind (events_append h.data)))))

theorem message_emits (msg : SharedObjectMessage) :
    Emits Buffer.peek (write msg) (fun _ _ => msg.Fits) := by
  rw [write]
  split
  · exact emits_throw _
  split
  · exact emits_throw _
  rename_i hname hevents
  refine emits_then _ (emits_then _ (emits_then _ (emits_then _ (emits_then _ ?_))))
  exact (events_emit msg.events).mono fun _ _ hdata =>
    ⟨Nat.not_lt.mp hname, Nat.not_lt.mp hevents, hdata⟩

theorem message_written {out : Buffer} (hout : out.peek = []) (h : msg.Fits) :
    ((write msg).on out).1 = .ok () ∧ ((write msg).on out).2.peek = objectBytes msg 0 := by
  have hroom : out.peek.length + (objectBytes msg 0).length ≤ bufferMaxSize := by
    rw [hout, List.length_nil, Nat.zero_add]
    exact message_fits h
  obtain ⟨out', hon, hpeek⟩ := message_appends h out hroom
  rw [hon]
  exact ⟨rfl, by rw [hpeek, hout, List.nil_append]⟩

theorem reserved_zeroed (msg : SharedObjectMessage) (reserved : Nat) :
    objectBytes msg 0 = (objectBytes msg reserved).take (10 + msg.name.utf8ByteSize) ++
      List.replicate 4 0 ++ (objectBytes msg reserved).drop (14 + msg.name.utf8ByteSize) := by
  let header := (Bytes.toBe 2 msg.name.utf8ByteSize ++ nameBytes msg.name) ++
    (Bytes.toBe 4 msg.version.toNat ++ Bytes.toBe 4 msg.flags.toNat)
  have hsplit (r : Nat) :
      objectBytes msg r = header ++ (Bytes.toBe 4 r ++ msg.events.flatMap eventBytes) := by
    simp only [objectBytes, header, List.append_assoc]
  have hlen : header.length = 10 + msg.name.utf8ByteSize := by
    simp only [header, List.length_append, Bytes.to_be_length, name_bytes_length]
    omega
  have hword : (header ++ Bytes.toBe 4 reserved).length = 14 + msg.name.utf8ByteSize := by
    rw [List.length_append, hlen, Bytes.to_be_length]
    omega
  rw [hsplit 0, hsplit reserved, List.take_left' hlen,
    ← List.append_assoc header (Bytes.toBe 4 reserved), List.drop_left' hword]
  exact (List.append_assoc header (List.replicate 4 0) _).symm

/-- What is written is read back, and an accepted encoding is written again with a zero reserved
word. -/
theorem shared_object_round_trip (out : Buffer) (hout : out.peek = [])
    (msg : SharedObjectMessage) :
    ((∀ e ∈ msg.events, e.eventType.Canonical) →
      (((write msg).on out).1 = .ok () ↔ msg.Fits) ∧
      (msg.Fits → ∃ h, parse ((write msg).on out).2.peek h = .ok msg)) ∧
    ∀ data h, parse data h = .ok msg →
      ((write msg).on out).1 = .ok () ∧
      ((write msg).on out).2.peek =
        data.take (10 + msg.name.utf8ByteSize) ++ List.replicate 4 0 ++
          data.drop (14 + msg.name.utf8ByteSize) := by
  constructor
  · intro hc
    refine ⟨⟨fun hok => ?_, fun hfits => (message_written hout hfits).1⟩, fun hfits => ?_⟩
    · obtain ⟨-, -, hfits⟩ := message_emits msg out () hok
      exact hfits
    · have hlen : (objectBytes msg 0).length ≤ isizeMax :=
        Nat.le_trans (message_fits hfits) (by decide)
      rw [(message_written hout hfits).2]
      exact ⟨hlen, message_read hfits hc (by decide) _ (Buffer.peek_from_slice _ hlen)⟩
  · intro data h hok
    obtain ⟨hfits, reserved, hpeek⟩ := message_sound hok
    rw [Buffer.peek_from_slice] at hpeek
    obtain ⟨hwritten, hbytes⟩ := message_written hout hfits
    refine ⟨hwritten, ?_⟩
    rw [hbytes, hpeek]
    exact reserved_zeroed msg reserved

def scoreObject : SharedObjectMessage := ⟨"score", 7, 2, [⟨.use, []⟩, ⟨.unknown 40, [1, 2]⟩]⟩

theorem score_round_trip : scoreObject.Fits ∧
    (∃ h, parse ((write scoreObject).on .new).2.peek h = .ok scoreObject) ∧
    ((write scoreObject).on .new).2.peek =
      (objectBytes scoreObject 9).take 15 ++ List.replicate 4 0 ++
        (objectBytes scoreObject 9).drop 19 := by
  have hfits : scoreObject.Fits := ⟨by decide, by decide, by decide⟩
  have hc : ∀ e ∈ scoreObject.events, e.eventType.Canonical := by
    simp [scoreObject, SharedObjectEventType.Canonical]
  have hround := shared_object_round_trip .new rfl scoreObject
  refine ⟨hfits, (hround.1 hc).2 hfits, (hround.2 (objectBytes scoreObject 9) (by decide) ?_).2⟩
  exact message_read hfits hc (by decide) _ (Buffer.peek_from_slice _ _)

end Messages

end LibRtmp.Proofs
