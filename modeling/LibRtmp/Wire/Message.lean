import LibRtmp.Lib.Table
import LibRtmp.Lib.Slices
import LibRtmp.Wire.Peer

namespace LibRtmp.Wire

/-- Continuation chunks of a message, with the extended field exactly when it has one. -/
inductive Continues (c csid : Nat) (ext : Bool) : List UInt8 → List Chunk → Prop where
  | nil : Continues c csid ext [] []
  | cons {w : Chunk} {rest : List UInt8} {ws : List Chunk} (wf : w.WellFormed)
      (id : w.csid = csid) (fmt : w.header = .same) (field : w.ext.isSome = ext)
      (open_ : rest ≠ []) (data : w.data = rest.take c)
      (next : Continues c csid ext (rest.drop c) ws) : Continues c csid ext rest (w :: ws)

structure Starts (c csid : Nat) (ctx : Context) (payload : List UInt8) (w : Chunk) : Prop where
  wf : w.WellFormed
  id : w.csid = csid
  known : 2 ≤ w.header.fmt → ctx.started = true
  ext : w.ext.isSome = ctx.announces w.header
  length : payload.length = (ctx.next w).length
  data : w.data = payload.take c

def noResize : Message → Option Nat := fun _ => none

variable {size : Message → Option Nat} {lim : Limits} {load : Load} {ids : List Nat}
  {c c' c'' csid : Nat} {ps qs rs : Nat → Peer} {ws vs cont : List Chunk} {ms ns : List Message}

theorem Sends.append (h : Sends size lim load ids c ps ws ms c' qs)
    (h' : Sends size lim load ids c' qs vs ns c'' rs) :
    Sends size lim load ids c ps (ws ++ vs) (ms ++ ns) c'' rs := by
  induction h with
  | nil => exact h'
  | part mem afford emits _ ih => exact .part mem afford emits (ih h')
  | last mem afford emits _ ih => exact .last mem afford emits (ih h')

/-- All chunk streams but one are between messages. -/
def OthersIdle (ids : List Nat) (csid : Nat) (ps : Nat → Peer) : Prop :=
  ∀ id ∈ ids, id ≠ csid → (ps id).sent = [] ∧ (ps id).rest = []

theorem OthersIdle.update (h : OthersIdle ids csid ps) (p : Peer) :
    OthersIdle ids csid (Function.update ps csid p) := by
  intro id hid hne
  rw [Function.update_of_ne hne]
  exact h id hid hne

theorem others_idle_bytes (hn : ids.Nodup) (mem : csid ∈ ids) (h : OthersIdle ids csid ps) :
    partialBytes ids ps = (ps csid).sent.length := by
  apply Table.sum_single (fun id => (ps id).sent.length) hn mem
  intro id hid hne
  rw [(h id hid hne).1]
  rfl

theorem others_idle_count (hn : ids.Nodup) (mem : csid ∈ ids) (h : OthersIdle ids csid ps)
    (hi : (ps csid).rest = []) : partialCount ids ps = 0 := by
  rw [partialCount, Table.sum_single (fun id => if (ps id).rest = [] then 0 else 1) hn mem]
  · exact if_pos hi
  · intro id hid hne
    exact if_pos (h id hid hne).2

structure MessageRoom (lim : Limits) (load : Load) (length : Nat) : Prop where
  length_le : length ≤ lim.msgLength
  bytes : load.bytes + length ≤ lim.reassembly
  active : load.count < lim.active

theorem afford_alone {w : Chunk} (hn : ids.Nodup) (mem : w.csid ∈ ids)
    (hidle : OthersIdle ids w.csid ps) {n : Nat} (hroom : MessageRoom lim load n)
    (hlen : messageLength (ps w.csid) w ≤ n) (hbytes : (ps w.csid).sent.length + w.data.length ≤ n) :
    Affords lim load ids ps w where
  length_le := Nat.le_trans hlen hroom.length_le
  bytes := by
    intro _
    have := hroom.bytes
    rw [others_idle_bytes hn mem hidle]
    omega
  active := by
    intro hi
    rw [others_idle_count hn mem hidle hi]
    exact hroom.active

theorem Continues.of_nil {ext : Bool} (h : Continues c csid ext [] cont) : cont = [] := by
  cases h with
  | nil => rfl
  | cons _ _ _ _ open_ => exact absurd rfl open_

/-- A chunk of a message, followed by the rest of the message if there is more. -/
theorem emits_then {ctx : Context} {sent rest : List UInt8} {w : Chunk} (mem : csid ∈ ids)
    (id : w.csid = csid) (haff : Affords lim load ids ps w)
    (hem : Emits c csid (ps csid) w (.after ctx sent rest) (Peer.finished csid ctx sent rest))
    (hcont : Continues c csid ctx.ext rest cont)
    (hnext : rest ≠ [] → Sends size lim load ids c
      (Function.update ps csid { ctx, sent, rest }) cont [ctx.message csid (sent ++ rest)]
      ((size (ctx.message csid (sent ++ rest))).getD c) (Function.update ps csid { ctx })) :
    Sends size lim load ids c ps (w :: cont) [ctx.message csid (sent ++ rest)]
      ((size (ctx.message csid (sent ++ rest))).getD c) (Function.update ps csid { ctx }) := by
  subst id
  by_cases hr : rest = []
  · subst hr
    rw [hcont.of_nil, List.append_nil]
    rw [Peer.after, Peer.finished, if_pos rfl, if_pos rfl] at hem
    exact .last mem haff hem (.nil ..)
  · rw [Peer.after, Peer.finished, if_neg hr, if_neg hr] at hem
    exact .part mem haff hem (hnext hr)

/-- The rest of a message can be sent, whatever values its extended fields repeat. -/
theorem continues_sends {ctx : Context} {sent rest : List UInt8} (hn : ids.Nodup)
    (mem : csid ∈ ids) (hidle : OthersIdle ids csid ps) (hroom : MessageRoom lim load ctx.length)
    (hcont : Continues c csid ctx.ext rest cont)
    (htotal : sent.length + rest.length = ctx.length) (hopen : rest ≠ [])
    (hp : ps csid = { ctx, sent, rest }) :
    Sends size lim load ids c ps cont [ctx.message csid (sent ++ rest)]
      ((size (ctx.message csid (sent ++ rest))).getD c) (Function.update ps csid { ctx }) := by
  induction hcont generalizing sent ps with
  | nil => exact absurd rfl hopen
  | @cons w rest cont wf id fmt field open_ data next ih =>
    have hlen : sent.length + (rest.take c).length + (rest.drop c).length = ctx.length := by
      rw [List.length_take, List.length_drop]
      omega
    have hmsg : sent ++ rest = sent ++ rest.take c ++ rest.drop c := by
      rw [List.append_assoc, List.take_append_drop]
    have haff : Affords lim load ids ps w := by
      apply afford_alone hn (id ▸ mem) (id ▸ hidle) hroom
      · rw [id, hp, messageLength, if_neg open_]
      · rw [id, hp, data]
        exact Nat.le_of_add_right_le (Nat.le_of_eq hlen)
    rw [hmsg]
    apply emits_then mem id haff (hp ▸ .more wf id fmt field open_ data) next
    intro hr
    have hrec := ih (hidle.update { ctx, sent := sent ++ rest.take c, rest := rest.drop c })
      (by rw [List.length_append]; exact hlen) hr (Function.update_self ..)
    rw [Function.update_idem] at hrec
    exact hrec

/-- A whole message can be sent while no other is in progress. -/
theorem message_sends {ctx : Context} {w : Chunk} {payload : List UInt8} (hn : ids.Nodup)
    (mem : csid ∈ ids) (hidle : OthersIdle ids csid ps)
    (hroom : MessageRoom lim load payload.length) (hp : ps csid = { ctx })
    (hstart : Starts c csid ctx payload w)
    (hcont : Continues c csid (ctx.next w).ext (payload.drop c) cont) :
    Sends size lim load ids c ps (w :: cont) [(ctx.next w).message csid payload]
      ((size ((ctx.next w).message csid payload)).getD c)
      (Function.update ps csid { ctx := ctx.next w }) := by
  obtain ⟨wf, id, known, ext, length, data⟩ := hstart
  have hmsg : payload = payload.take c ++ payload.drop c := (List.take_append_drop ..).symm
  have haff : Affords lim load ids ps w := by
    apply afford_alone hn (id ▸ mem) (id ▸ hidle) hroom
    · rw [id, hp, messageLength, if_pos rfl, length]
    · rw [id, hp, data, List.length_take]
      exact (Nat.zero_add _).symm ▸ Nat.min_le_right ..
  have hthen := @emits_then size lim load ids c csid ps cont (ctx.next w) (payload.take c)
    (payload.drop c) w mem id haff (hp ▸ .start wf id known ext length data) hcont
  rw [← hmsg] at hthen
  apply hthen
  intro hr
  have hrest := @continues_sends size lim load ids c csid
    (Function.update ps csid ⟨ctx.next w, payload.take c, payload.drop c⟩) cont (ctx.next w)
    (payload.take c) (payload.drop c) hn mem (hidle.update _) (length ▸ hroom) hcont
    (by rw [← List.length_append, ← hmsg, length]) hr (Function.update_self ..)
  rw [← hmsg, Function.update_idem] at hrest
  exact hrest

end LibRtmp.Wire
