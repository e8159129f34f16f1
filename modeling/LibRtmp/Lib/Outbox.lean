import Mathlib.Data.List.Basic

/-- Items on their way out. An item of a message that is followed carries its number. -/
structure Outbox (α : Type) where
  left : List (α × Option Nat) := []
  queue : List (α × Option Nat) := []

namespace Outbox

variable {α : Type}

def push (o : Outbox α) (tag : Option Nat) (xs : List α) : Outbox α :=
  { o with queue := o.queue ++ xs.map (fun x => (x, tag)) }

def release (o : Outbox α) (n : Nat) : Outbox α :=
  { left := o.left ++ o.queue.take n, queue := o.queue.drop n }

theorem release_empty {o : Outbox α} (h : o.queue = []) (n : Nat) : o.release n = o := by
  obtain ⟨left, queue⟩ := o
  cases h
  simp [release]

def pass (o : Outbox α) (xs : List α) : Outbox α :=
  { o with left := o.left ++ xs.map (fun x => (x, none)) }

/-- How many items there are up to and including the last one of message `i`, 0 if it has none. -/
def upTo (i : Nat) : List (α × Option Nat) → Nat
  | [] => 0
  | x :: xs => if x.2 = some i ∨ 0 < upTo i xs then upTo i xs + 1 else 0

def remaining (o : Outbox α) (i : Nat) : Nat := upTo i o.queue

def part (i : Nat) (l : List (α × Option Nat)) : List α :=
  (l.filter (fun x => x.2 = some i)).map Prod.fst

def message (o : Outbox α) (i : Nat) : List α := part i (o.left ++ o.queue)

theorem up_to_none {i : Nat} {l : List (α × Option Nat)} (h : ∀ x ∈ l, x.2 ≠ some i) :
    upTo i l = 0 := by
  induction l with
  | nil => rfl
  | cons x l ih =>
    have hx := h x List.mem_cons_self
    have hl := ih (fun y hy => h y (List.mem_cons_of_mem x hy))
    simp [upTo, hx, hl]

theorem none_of_up_to {i : Nat} {l : List (α × Option Nat)} (h : upTo i l = 0) :
    ∀ x ∈ l, x.2 ≠ some i := by
  induction l with
  | nil => intro x hx; cases hx
  | cons x l ih =>
    simp only [upTo] at h
    split at h
    · omega
    · rename_i hn
      rw [not_or] at hn
      intro y hy
      rcases List.mem_cons.mp hy with rfl | hy
      · exact hn.1
      · exact ih (by omega) y hy

theorem up_to_append {i : Nat} {l : List (α × Option Nat)} (m : List (α × Option Nat))
    (h : ∀ x ∈ m, x.2 ≠ some i) : upTo i (l ++ m) = upTo i l := by
  induction l with
  | nil => exact up_to_none h
  | cons x l ih => simp only [List.cons_append, upTo, ih]

/-- The last item of message `i` is where the count ends. -/
theorem up_to_at {i : Nat} {l : List (α × Option Nat)} (h : 0 < upTo i l) :
    (l[upTo i l - 1]?).map Prod.snd = some (some i) := by
  induction l with
  | nil => cases h
  | cons x l ih =>
    simp only [upTo] at h ⊢
    split at h
    · rename_i hx
      rw [if_pos hx, Nat.add_sub_cancel]
      by_cases hl : 0 < upTo i l
      · have hat := ih hl
        rw [← Nat.sub_add_cancel hl, List.getElem?_cons_succ]
        exact hat
      · rw [Nat.eq_zero_of_not_pos hl, List.getElem?_cons_zero, Option.map_some,
          hx.resolve_right hl]
    · cases h

theorem up_to_le (i : Nat) (l : List (α × Option Nat)) : upTo i l ≤ l.length := by
  induction l with
  | nil => exact Nat.le_refl 0
  | cons x l ih =>
    simp only [upTo, List.length_cons]
    split <;> omega

/-- A message at the end of the queue is as far away as the queue is long. -/
theorem up_to_last {i : Nat} (l : List (α × Option Nat)) {xs : List α} (h : xs ≠ []) :
    upTo i (l ++ xs.map (fun x => (x, some i))) = l.length + xs.length := by
  induction l with
  | nil =>
    induction xs with
    | nil => exact absurd rfl h
    | cons x xs ih =>
      cases xs with
      | nil => simp [upTo]
      | cons y ys =>
        have hys := ih (by simp)
        simp only [List.nil_append, List.length_nil, Nat.zero_add] at hys ⊢
        rw [List.map_cons, upTo, hys]
        simp
  | cons x l ih =>
    have hpos : 0 < xs.length := List.length_pos_iff.mpr h
    rw [List.cons_append, upTo, ih, if_pos (Or.inr (by omega)), List.length_cons]
    omega

theorem up_to_drop (i n : Nat) (l : List (α × Option Nat)) :
    upTo i (l.drop n) = upTo i l - n := by
  induction l generalizing n with
  | nil => simp [upTo]
  | cons x l ih =>
    cases n with
    | zero => rfl
    | succ n =>
      rw [List.drop_succ_cons, ih, upTo]
      split <;> omega

/-- No item of message `i` comes later. -/
theorem up_to_after (i : Nat) (l : List (α × Option Nat)) :
    ∀ x ∈ l.drop (upTo i l), x.2 ≠ some i := by
  apply none_of_up_to
  rw [up_to_drop, Nat.sub_self]

theorem part_append (i : Nat) (l m : List (α × Option Nat)) :
    part i (l ++ m) = part i l ++ part i m := by
  simp [part]

theorem part_of_none {i : Nat} {l : List (α × Option Nat)} (h : ∀ x ∈ l, x.2 ≠ some i) :
    part i l = [] := by
  simp only [part, List.map_eq_nil_iff, List.filter_eq_nil_iff]
  intro x hx
  simpa using h x hx

theorem part_tagged (i : Nat) (xs : List α) : part i (xs.map (fun x => (x, some i))) = xs := by
  simp [part, List.filter_map, Function.comp_def]

theorem unfollowed (i : Nat) (xs : List α) :
    ∀ x ∈ xs.map (fun x => (x, (none : Option Nat))), x.2 ≠ some i := by
  simp

theorem message_push (o : Outbox α) (i : Nat) (xs : List α) :
    (o.push none xs).message i = o.message i := by
  simp only [message, push]
  rw [← List.append_assoc, part_append, part_of_none (unfollowed i xs), List.append_nil]

theorem message_release (o : Outbox α) (i n : Nat) : (o.release n).message i = o.message i := by
  simp [message, release]

theorem message_pass (o : Outbox α) (i : Nat) (xs : List α) :
    (o.pass xs).message i = o.message i := by
  simp only [message, pass, part_append]
  rw [part_of_none (unfollowed i xs), List.append_nil]

/-- Once nothing of a message waits, all of it has left. -/
theorem message_left {o : Outbox α} {i : Nat} (h : o.remaining i = 0) :
    part i o.left = o.message i := by
  rw [message, part_append, part_of_none (none_of_up_to h), List.append_nil]

/-- The latest message, number `last`, is followed, with `k` items to go until it has left. -/
structure Counted (o : Outbox α) (last k : Nat) : Prop where
  count : k = o.remaining last
  only : ∀ x ∈ o.queue, ∀ i, x.2 = some i → i = last
  old : ∀ x ∈ o.left, ∀ i, x.2 = some i → i ≤ last

namespace Counted

variable {o : Outbox α} {last k : Nat}

theorem fresh (h : Counted o last k) : ∀ x ∈ o.left ++ o.queue, x.2 ≠ some (last + 1) := by
  intro x hx he
  rcases List.mem_append.mp hx with hl | hq
  · have := h.old x hl _ he
    omega
  · have := h.only x hq _ he
    omega

theorem push (h : Counted o last k) (xs : List α) : Counted (o.push none xs) last k where
  count := by
    rw [h.count]
    exact (up_to_append _ (unfollowed last xs)).symm
  only := by
    intro x hx i hi
    rcases List.mem_append.mp hx with hq | hn
    · exact h.only x hq i hi
    · exact absurd hi (unfollowed i xs x hn)
  old := h.old

theorem release (h : Counted o last k) (n : Nat) : Counted (o.release n) last (k - n) where
  count := by
    rw [h.count]
    exact (up_to_drop last n o.queue).symm
  only := fun x hx => h.only x (List.mem_of_mem_drop hx)
  old := by
    intro x hx i hi
    rcases List.mem_append.mp hx with hl | hq
    · exact h.old x hl i hi
    · exact Nat.le_of_eq (h.only x (List.mem_of_mem_take hq) i hi)

theorem pass (h : Counted o last k) (xs : List α) : Counted (o.pass xs) last k where
  count := h.count
  only := h.only
  old := by
    intro x hx i hi
    rcases List.mem_append.mp hx with hl | hn
    · exact h.old x hl i hi
    · exact absurd hi (unfollowed i xs x hn)

/-- With nothing to go, no followed item waits. -/
theorem clear (h : Counted o last 0) : ∀ x ∈ o.queue, x.2 = none := by
  intro x hx
  rw [Option.eq_none_iff_forall_ne_some]
  intro i hi
  have hlast := h.only x hx i hi
  exact none_of_up_to h.count.symm x hx (hlast ▸ hi)

/-- The next message is counted from the whole queue with it. -/
theorem next (h : Counted o last 0) {xs : List α} (hx : xs ≠ []) :
    Counted (o.push (some (last + 1)) xs) (last + 1) (o.queue.length + xs.length) where
  count := (up_to_last o.queue hx).symm
  only := by
    intro x hm i hi
    rcases List.mem_append.mp hm with hq | hn
    · rw [h.clear x hq] at hi
      cases hi
    · obtain ⟨y, -, rfl⟩ := List.mem_map.mp hn
      exact (Option.some.inj hi).symm
  old := fun x hx i hi => Nat.le_succ_of_le (h.old x hx i hi)

theorem message_next (h : Counted o last k) (xs : List α) :
    (o.push (some (last + 1)) xs).message (last + 1) = xs := by
  simp only [message, Outbox.push]
  rw [← List.append_assoc, part_append, part_of_none h.fresh, part_tagged, List.nil_append]

theorem new : Counted ({} : Outbox α) 0 0 where
  count := rfl
  only := by intro x hx; cases hx
  old := by intro x hx; cases hx

end Counted

end Outbox
