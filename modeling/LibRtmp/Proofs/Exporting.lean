import LibRtmp.Server.Export

namespace LibRtmp.Proofs

open RelayExportBuffer Suffixes

section Pushing

variable {maxFrames maxBytes : Nat} {frames kept : List (RelayFrame × DeliveryHint)}
  {x : RelayFrame × DeliveryHint}

/-- Below the largest number, adding with saturation does not hide that a limit is passed. -/
theorem sat_add_gt {a b limit : Nat} (h : limit < usizeMax) : satAdd a b > limit ↔ a + b > limit := by
  unfold satAdd
  omega

theorem exported_bytes_snoc (frames : List (RelayFrame × DeliveryHint))
    (x : RelayFrame × DeliveryHint) :
    exportedBytes (frames ++ [x]) = exportedBytes frames + x.1.retainedBytes := by
  simp [exportedBytes]

theorem is_full_iff (hmax : maxBytes < usizeMax) (x : RelayFrame × DeliveryHint) :
    isFull ⟨frames, maxFrames, maxBytes, exportedBytes frames⟩ x.1.retainedBytes = true ↔
      ¬ FitsExport maxFrames maxBytes (frames ++ [x]) := by
  unfold isFull FitsExport
  rw [Bool.or_eq_true, decide_eq_true_eq, decide_eq_true_eq, sat_add_gt hmax, exported_bytes_snoc,
    List.length_append]
  simp only [List.length_singleton]
  omega

/-- The loop keeps the longest end that the new frame fits behind, and its size. -/
theorem make_room_longest (hmax : maxBytes < usizeMax)
    (hx : FitsExport maxFrames maxBytes [x]) :
    ∃ kept, makeRoom maxFrames maxBytes x.1.retainedBytes frames (exportedBytes frames) =
        ⟨kept, maxFrames, maxBytes, exportedBytes kept⟩ ∧
      Longest (fun q => FitsExport maxFrames maxBytes (q ++ [x])) frames kept := by
  induction frames with
  | nil => exact ⟨[], rfl, longest_self hx⟩
  | cons old rest ih =>
    unfold makeRoom
    dsimp only
    by_cases hfits : FitsExport maxFrames maxBytes (old :: rest ++ [x])
    · rw [if_neg (fun h => (is_full_iff hmax x).mp h hfits)]
      exact ⟨_, rfl, longest_self hfits⟩
    · rw [if_pos ((is_full_iff hmax x).mpr hfits)]
      have hrest : exportedBytes (old :: rest) - old.1.retainedBytes = exportedBytes rest := by
        simp [exportedBytes]
      rw [hrest]
      obtain ⟨kept, hkept, hlongest⟩ := ih
      exact ⟨kept, hkept, hlongest.cons hfits⟩

def Holds (maxFrames maxBytes : Nat) (frames : List (RelayFrame × DeliveryHint))
    (b : RelayExportBuffer) : Prop :=
  ∃ kept, b = ⟨kept, maxFrames, maxBytes, exportedBytes kept⟩ ∧
    Longest (FitsExport maxFrames maxBytes) frames kept

theorem holds_empty : Holds maxFrames maxBytes [] ⟨[], maxFrames, maxBytes, 0⟩ :=
  ⟨[], rfl, longest_self ⟨Nat.zero_le _, Nat.zero_le _⟩⟩

theorem Holds.push {b : RelayExportBuffer} (h : Holds maxFrames maxBytes frames b)
    (hframes : 1 ≤ maxFrames) (hmax : maxBytes < usizeMax)
    (hx : x.1.retainedBytes ≤ maxBytes) :
    Holds maxFrames maxBytes (frames ++ [x]) (b.pushClone x.1 x.2) := by
  obtain ⟨kept, rfl, hlongest⟩ := h
  have hsingle : FitsExport maxFrames maxBytes [x] := by
    refine ⟨hframes, ?_⟩
    simpa [exportedBytes] using hx
  obtain ⟨left, hleft, hroom⟩ := @make_room_longest maxFrames maxBytes kept x hmax hsingle
  have hpushed : satAdd (exportedBytes left) x.1.retainedBytes = exportedBytes (left ++ [x]) := by
    have hbytes := hroom.fits.2
    rw [exported_bytes_snoc] at hbytes ⊢
    exact sat_add_eq (by omega)
  refine ⟨left ++ [x], ?_, hlongest.push ?_ hroom⟩
  · unfold pushClone
    dsimp only
    rw [if_neg (by omega), if_neg (by omega), hleft,
      if_neg (fun h => (is_full_iff hmax x).mp h hroom.fits)]
    rw [hpushed]
  · intro q hq
    unfold FitsExport at hq ⊢
    rw [exported_bytes_snoc, List.length_append] at hq
    omega

theorem Holds.push_oversized {b : RelayExportBuffer} (h : Holds maxFrames maxBytes frames b)
    (hframes : 1 ≤ maxFrames) (hx : ¬ x.1.retainedBytes ≤ maxBytes) :
    Holds maxFrames maxBytes [] (b.pushClone x.1 x.2) := by
  obtain ⟨kept, rfl, -⟩ := h
  unfold pushClone
  dsimp only
  rw [if_neg (by omega), if_pos (Nat.not_le.mp hx)]
  exact holds_empty

end Pushing

theorem since_drain_push (ops : List ExportOp) (frame : RelayFrame) (hint : DeliveryHint) :
    ExportOp.sinceDrain (ops ++ [.pushClone frame hint]) =
      ExportOp.sinceDrain ops ++ [(frame, hint)] := by
  unfold ExportOp.sinceDrain
  rw [List.rtakeWhile_concat_pos _ _ _ rfl, List.filterMap_append]
  rfl

theorem since_drain_drain (ops : List ExportOp) :
    ExportOp.sinceDrain (ops ++ [.drain]) = [] := by
  unfold ExportOp.sinceDrain
  rw [List.rtakeWhile_concat_neg _ _ _ (by simp [ExportOp.pushed])]
  rfl

/-- After any pushes and drains the buffer holds, in order, the longest end within its limits of
what was pushed since the last drain and the last frame too large by itself. Its count of bytes is
right, and a drain hands out all of it. -/
theorem export_keeps_newest (maxFrames maxBytes : Nat) (hframes : 1 ≤ maxFrames)
    (hmax : maxBytes < usizeMax) (ops : List ExportOp) :
    let b := Runs.exec ExportOp.apply { maxFrames, maxBytes } ops
    Longest (FitsExport maxFrames maxBytes)
        (sinceOversized maxBytes (ExportOp.sinceDrain ops)) b.frames ∧
      b.bytes = exportedBytes b.frames ∧ b.drain = (b.frames, { maxFrames, maxBytes }) := by
  have hholds : Holds maxFrames maxBytes (sinceOversized maxBytes (ExportOp.sinceDrain ops))
      (Runs.exec ExportOp.apply { maxFrames, maxBytes } ops) := by
    induction ops using List.reverseRecOn with
    | nil => exact holds_empty
    | append_singleton ops op ih =>
      rw [Runs.exec_append]
      generalize Runs.exec ExportOp.apply { maxFrames, maxBytes } ops = b at ih ⊢
      cases op with
      | drain =>
        obtain ⟨kept, rfl, -⟩ := ih
        rw [since_drain_drain]
        exact holds_empty
      | pushClone frame hint =>
        rw [since_drain_push]
        unfold sinceOversized at ih ⊢
        by_cases hx : frame.retainedBytes ≤ maxBytes
        · rw [List.rtakeWhile_concat_pos _ _ _ (by simpa using hx)]
          exact ih.push (x := (frame, hint)) hframes hmax hx
        · rw [List.rtakeWhile_concat_neg _ _ _ (by simpa using hx)]
          exact ih.push_oversized (x := (frame, hint)) hframes hx
  obtain ⟨kept, hb, hlongest⟩ := hholds
  intro b
  have hb : b = ⟨kept, maxFrames, maxBytes, exportedBytes kept⟩ := hb
  rw [hb]
  exact ⟨hlongest, rfl, rfl⟩

def exportFrame (size : Nat) : RelayFrame where
  frameType := .audio
  timestamp := 0
  payload := List.replicate size 0
  cachePayload := none
  app := "a"
  streamName := "b"
  publisherConnId := 1

def fourPushed : List ExportOp :=
  [4, 1, 2, 3].map (fun size => .pushClone (exportFrame size) .droppable)

/-- The two newest frames fit, as three would be too large. -/
theorem four_pushed_two_kept :
    (Runs.exec ExportOp.apply { maxFrames := 3, maxBytes := 10 } fourPushed).frames.length = 2 ∧
      Longest (FitsExport 3 10) (sinceOversized 10 (ExportOp.sinceDrain fourPushed))
        (Runs.exec ExportOp.apply { maxFrames := 3, maxBytes := 10 } fourPushed).frames :=
  ⟨by decide +kernel, (export_keeps_newest 3 10 (by decide) (by decide) fourPushed).1⟩

end LibRtmp.Proofs
