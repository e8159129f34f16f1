import LibRtmp.Buffer.Basic

namespace LibRtmp

abbrev WriteM := ExceptT ErrorCode (StateM Buffer)

def WriteM.on {α : Type} (m : WriteM α) (out : Buffer) : Except ErrorCode α × Buffer :=
  StateT.run (ExceptT.run m) out

def orInternal {α : Type} : Buffer × Except ErrorCode α → Except ErrorCode Unit × Buffer
  | (out, .ok _) => (.ok (), out)
  | (out, .error _) => (.error .internal, out)

def writeAll (d : List UInt8) : WriteM Unit := ExceptT.mk (fun out => orInternal (out.write d))

def reserveRoom (n : Nat) : WriteM Unit := ExceptT.mk (fun out => orInternal (out.reserve n))

namespace WriteM

variable {α β : Type}

theorem on_bind (m : WriteM α) (f : α → WriteM β) (out : Buffer) :
    on (m >>= f) out =
      match on m out with
      | (.ok a, out) => on (f a) out
      | (.error e, out) => (.error e, out) := by
  unfold on
  rw [ExceptT.run_bind, StateT.run_bind]
  generalize StateT.run (ExceptT.run m) out = r
  obtain ⟨r, s⟩ := r
  cases r <;> rfl

/-- With room for `d`, the writer succeeds with `a` and appends exactly `d`. -/
def Appends (m : WriteM α) (d : List UInt8) (a : α) : Prop :=
  ∀ out : Buffer, out.peek.length + d.length ≤ bufferMaxSize →
    ∃ out', m.on out = (.ok a, out') ∧ out'.peek = out.peek ++ d

theorem appends_pure (a : α) : Appends (pure a) [] a := by
  intro out _
  exact ⟨out, rfl, (List.append_nil _).symm⟩

theorem Appends.bind {m : WriteM α} {f : α → WriteM β} {d e : List UInt8} {a : α} {b : β}
    (hm : Appends m d a) (hf : Appends (f a) e b) : Appends (m >>= f) (d ++ e) b := by
  intro out hfit
  rw [List.length_append] at hfit
  obtain ⟨o1, h1, p1⟩ := hm out (by omega)
  obtain ⟨o2, h2, p2⟩ := hf o1 (by rw [p1, List.length_append]; omega)
  refine ⟨o2, ?_, by rw [p2, p1, List.append_assoc]⟩
  rw [on_bind, h1]
  exact h2

theorem appends_write (d : List UInt8) : Appends (writeAll d) d () := by
  intro out hfit
  obtain ⟨c, hc, hp⟩ := out.write_ok hfit
  refine ⟨c, ?_, hp⟩
  change orInternal (out.write d) = _
  rw [hc]
  rfl

theorem on_reserve (n : Nat) (out : Buffer) :
    ∃ out', (reserveRoom n).on out =
      (if out.peek.length + n ≤ bufferMaxSize then .ok () else .error .internal, out') ∧
      out'.peek = out.peek := by
  refine ⟨(out.reserve n).1, ?_, out.peek_reserve n⟩
  have hr := out.reserve_result n
  change orInternal (out.reserve n) = _
  generalize out.reserve n = r at hr
  obtain ⟨c, rc⟩ := r
  subst hr
  split <;> rfl

/-- Once room is reserved the writer either appends all of `d` or leaves the bytes alone. -/
def AllOrNothing (m : WriteM α) (d : List UInt8) (a : α) : Prop :=
  ∀ out : Buffer,
    if out.peek.length + d.length ≤ bufferMaxSize then
      ∃ out', m.on out = (.ok a, out') ∧ out'.peek = out.peek ++ d
    else ∃ out', m.on out = (.error .internal, out') ∧ out'.peek = out.peek

theorem Appends.reserved {m : WriteM α} {d : List UInt8} {a : α} (hm : Appends m d a) :
    AllOrNothing (reserveRoom d.length >>= fun _ => m) d a := by
  intro out
  obtain ⟨o1, h1, p1⟩ := on_reserve d.length out
  split
  · rename_i hfit
    obtain ⟨o2, h2, p2⟩ := hm o1 (by rw [p1]; exact hfit)
    rw [if_pos hfit] at h1
    exact ⟨o2, by rw [on_bind, h1]; exact h2, by rw [p2, p1]⟩
  · rename_i hfit
    rw [if_neg hfit] at h1
    exact ⟨o1, by rw [on_bind, h1], p1⟩

theorem AllOrNothing.appends {m : WriteM α} {d : List UInt8} {a : α} (hm : AllOrNothing m d a) :
    Appends m d a := by
  intro out hfit
  have h := hm out
  rwa [if_pos hfit] at h

/-- A writer that succeeded has appended all of `d`. -/
theorem AllOrNothing.of_ok {m : WriteM α} {d : List UInt8} {a b : α} {out out' : Buffer}
    (hm : AllOrNothing m d a) (hr : m.on out = (.ok b, out')) :
    b = a ∧ out'.peek = out.peek ++ d := by
  have h := hm out
  split at h
  · obtain ⟨o, ho, hp⟩ := h
    rw [hr] at ho
    cases ho
    exact ⟨rfl, hp⟩
  · obtain ⟨o, ho, hp⟩ := h
    rw [hr] at ho
    cases ho

def Lengthens (w : WriteM α) : Prop := ∀ out, ∃ d, (w.on out).2.peek = out.peek ++ d

theorem AllOrNothing.lengthens {w : WriteM α} {d : List UInt8} {a : α} (h : AllOrNothing w d a) :
    Lengthens w := by
  intro out
  have hout := h out
  split at hout
  · obtain ⟨out', ho, hp⟩ := hout
    exact ⟨d, by rw [ho, hp]⟩
  · obtain ⟨out', ho, hp⟩ := hout
    exact ⟨[], by rw [ho, hp, List.append_nil]⟩

theorem write_all_lengthens (d : List UInt8) : Lengthens (writeAll d) := by
  intro out
  have hpeek : ((writeAll d).on out).2.peek = (out.write d).1.peek := by
    change (orInternal (out.write d)).2.peek = _
    generalize out.write d = r
    obtain ⟨c, result⟩ := r
    cases result <;> rfl
  rw [hpeek, out.peek_write]
  split
  · exact ⟨d, rfl⟩
  · exact ⟨[], (List.append_nil _).symm⟩

end WriteM

end LibRtmp
