import Mathlib.Algebra.Ring.Nat
import Mathlib.Data.List.Rotate

namespace RoundRobin

variable {α κ : Type}

section Rounds

def rounds : Nat → List (List α) → List α
  | 0, _ => []
  | fuel + 1, queues =>
    match queues.filterMap List.head? with
    | [] => []
    | heads => heads ++ rounds fuel (queues.map List.tail)

/-- Round robin over the queues; the one at `start` leads every round. -/
def merge (queues : List (List α)) (start : Nat) : List α :=
  rounds (queues.map List.length).sum (queues.rotate start)

def Solo (p : α → Bool) (q : List α) (queues : List (List α)) : Prop :=
  (∀ x ∈ q, p x = true) ∧ ∃ before after, queues = before ++ q :: after ∧
    ∀ o ∈ before ++ after, ∀ x ∈ o, p x = false

variable {p : α → Bool} {q : List α} {queues : List (List α)}

theorem filter_heads_none (h : ∀ o ∈ queues, ∀ x ∈ o, p x = false) :
    (queues.filterMap List.head?).filter p = [] := by
  rw [List.filter_eq_nil_iff]
  intro x hx
  obtain ⟨o, ho, hhead⟩ := List.mem_filterMap.mp hx
  rw [h o ho x (List.mem_of_mem_head? hhead)]
  decide

theorem Solo.filter_heads (h : Solo p q queues) :
    (queues.filterMap List.head?).filter p = q.head?.toList := by
  obtain ⟨hq, before, after, rfl, hothers⟩ := h
  have hbefore := filter_heads_none fun o ho => hothers o (List.mem_append_left _ ho)
  have hafter := filter_heads_none fun o ho => hothers o (List.mem_append_right _ ho)
  rw [List.filterMap_append, List.filter_append, hbefore, List.nil_append]
  cases q with
  | nil => simpa using hafter
  | cons x q => simpa [hq x List.mem_cons_self] using hafter

theorem Solo.tail (h : Solo p q queues) : Solo p q.tail (queues.map List.tail) := by
  obtain ⟨hq, before, after, rfl, hothers⟩ := h
  refine ⟨fun x hx => hq x (List.mem_of_mem_tail hx), before.map List.tail, after.map List.tail,
    by simp, ?_⟩
  intro o ho x hx
  rw [← List.map_append] at ho
  obtain ⟨o', ho', rfl⟩ := List.mem_map.mp ho
  exact hothers o' ho' x (List.mem_of_mem_tail hx)

/-- The rounds keep one queue's items in order. -/
theorem Solo.filter_rounds {fuel : Nat} (h : Solo p q queues) (hfuel : q.length ≤ fuel) :
    (rounds fuel queues).filter p = q := by
  induction fuel generalizing q queues with
  | zero =>
    rw [List.eq_nil_of_length_eq_zero (Nat.le_zero.mp hfuel)]
    rfl
  | succ fuel ih =>
    have hheads := h.filter_heads
    have htail := ih h.tail (by rw [List.length_tail]; omega)
    unfold rounds
    cases hcase : queues.filterMap List.head? with
    | nil =>
      rw [hcase] at hheads
      cases q with
      | nil => rfl
      | cons x q => cases hheads
    | cons y ys =>
      rw [hcase] at hheads
      rw [List.filter_append, hheads, htail]
      cases q <;> rfl

theorem Solo.perm {queues' : List (List α)} (h : Solo p q queues)
    (hp : queues'.Perm queues) : Solo p q queues' := by
  obtain ⟨hq, before, after, rfl, hothers⟩ := h
  obtain ⟨b, a, rfl⟩ := List.append_of_mem (hp.mem_iff.mpr (by simp) : q ∈ queues')
  have hrest : (b ++ a).Perm (before ++ after) :=
    ((List.perm_middle.symm.trans hp).trans List.perm_middle).cons_inv
  exact ⟨hq, b, a, rfl, fun o ho => hothers o (hrest.mem_iff.mp ho)⟩

theorem Solo.filter_merge (h : Solo p q queues) (start : Nat) :
    (merge queues start).filter p = q := by
  refine (h.perm (List.rotate_perm queues start)).filter_rounds ?_
  obtain ⟨_, before, after, rfl, _⟩ := h
  simp only [List.map_append, List.map_cons, List.sum_append, List.sum_cons]
  omega

theorem mem_rounds {fuel : Nat} {x : α} (h : x ∈ rounds fuel queues) : ∃ o ∈ queues, x ∈ o := by
  induction fuel generalizing queues with
  | zero => cases h
  | succ fuel ih =>
    unfold rounds at h
    split at h
    · cases h
    · rcases List.mem_append.mp h with hhead | htail
      · obtain ⟨o, ho, hx⟩ := List.mem_filterMap.mp hhead
        exact ⟨o, ho, List.mem_of_mem_head? hx⟩
      · obtain ⟨t, ht, hx⟩ := ih htail
        obtain ⟨o, ho, rfl⟩ := List.mem_map.mp ht
        exact ⟨o, ho, List.mem_of_mem_tail hx⟩

theorem mem_merge {start : Nat} {x : α} (h : x ∈ merge queues start) : ∃ o ∈ queues, x ∈ o := by
  obtain ⟨o, ho, hx⟩ := mem_rounds h
  exact ⟨o, List.mem_rotate.mp ho, hx⟩

/-- The first queue leads a round. -/
theorem head_rounds {fuel : Nat} (hfuel : 0 < fuel) (x : α) (q : List α)
    (rest : List (List α)) : (rounds fuel ((x :: q) :: rest)).head? = some x := by
  cases fuel with
  | zero => omega
  | succ fuel => rfl

theorem head_merge {start : Nat} {x : α} (h : queues[start]? = some (x :: q)) :
    (merge queues start).head? = some x := by
  obtain ⟨hlt, hget⟩ := List.getElem?_eq_some_iff.mp h
  have hrotate : queues.rotate start =
      (x :: q) :: (queues.drop (start + 1) ++ queues.take start) := by
    rw [List.rotate_eq_drop_append_take hlt.le, List.drop_eq_getElem_cons hlt, hget]
    rfl
  have hfuel : 0 < (queues.map List.length).sum := by
    obtain ⟨before, after, heq⟩ := List.append_of_mem (List.mem_of_getElem? h)
    rw [heq]
    simp only [List.map_append, List.map_cons, List.sum_append, List.sum_cons, List.length_cons]
    omega
  unfold merge
  rw [hrotate]
  exact head_rounds hfuel x q _

end Rounds

section Group

variable [DecidableEq κ] (key : α → κ)

/-- Add an item at the end of its key's queue; a new key opens a queue at the end. -/
def push : List (κ × List α) → α → List (κ × List α)
  | [], x => [(key x, [x])]
  | (k, q) :: rest, x => if key x = k then (k, q ++ [x]) :: rest else (k, q) :: push rest x

def group (xs : List α) : List (List α) := (xs.foldl (push key) []).map Prod.snd

def queueOf (k : κ) : List (κ × List α) → List α
  | [] => []
  | (k', q) :: rest => if k' = k then q else queueOf k rest

structure Keyed (queues : List (κ × List α)) : Prop where
  nodup : (queues.map Prod.fst).Nodup
  own : ∀ e ∈ queues, ∀ x ∈ e.2, key x = e.1

variable {key} {queues : List (κ × List α)}

theorem queue_of_push (k : κ) (queues : List (κ × List α)) (x : α) :
    queueOf k (push key queues x) = queueOf k queues ++ if key x = k then [x] else [] := by
  induction queues with
  | nil => simp [push, queueOf]
  | cons e rest ih =>
    obtain ⟨k', q⟩ := e
    by_cases hkey : key x = k' <;> by_cases hk : k' = k <;> simp_all [push, queueOf]

theorem queue_of_fold (k : κ) (xs : List α) (queues : List (κ × List α)) :
    queueOf k (xs.foldl (push key) queues) =
      queueOf k queues ++ xs.filter (fun x => key x = k) := by
  induction xs generalizing queues with
  | nil => simp
  | cons x xs ih =>
    rw [List.foldl_cons, ih, queue_of_push, List.append_assoc]
    by_cases hk : key x = k <;> simp [hk]

theorem queue_of_absent {k : κ} (h : k ∉ queues.map Prod.fst) : queueOf k queues = [] := by
  induction queues with
  | nil => rfl
  | cons d rest ih =>
    rw [List.map_cons, List.mem_cons, not_or] at h
    rw [queueOf, if_neg (Ne.symm h.1), ih h.2]

theorem mem_push {e : κ × List α} {x : α} (h : e ∈ push key queues x) :
    e ∈ queues ∨ e.1 = key x ∧ ∀ y ∈ e.2, y = x ∨ ∃ q, (e.1, q) ∈ queues ∧ y ∈ q := by
  induction queues with
  | nil =>
    cases List.mem_singleton.mp h
    exact .inr ⟨rfl, fun y hy => .inl (List.mem_singleton.mp hy)⟩
  | cons d rest ih =>
    obtain ⟨k, q⟩ := d
    unfold push at h
    split at h
    · rename_i hk
      rcases List.mem_cons.mp h with rfl | h
      · refine .inr ⟨hk.symm, fun y hy => ?_⟩
        rcases List.mem_append.mp hy with hy | hy
        · exact .inr ⟨q, List.mem_cons_self, hy⟩
        · exact .inl (List.mem_singleton.mp hy)
      · exact .inl (List.mem_cons_of_mem _ h)
    · rcases List.mem_cons.mp h with rfl | h
      · exact .inl List.mem_cons_self
      · rcases ih h with h | ⟨he, hy⟩
        · exact .inl (List.mem_cons_of_mem _ h)
        · refine .inr ⟨he, fun y hy' => (hy y hy').imp_right ?_⟩
          rintro ⟨q', hq', hyq⟩
          exact ⟨q', List.mem_cons_of_mem _ hq', hyq⟩

theorem keys_push (queues : List (κ × List α)) (x : α) : (push key queues x).map Prod.fst =
    if key x ∈ queues.map Prod.fst then queues.map Prod.fst
    else queues.map Prod.fst ++ [key x] := by
  induction queues with
  | nil => simp [push]
  | cons d rest ih =>
    obtain ⟨k, q⟩ := d
    by_cases hk : key x = k
    · simp [push, hk]
    · by_cases hr : key x ∈ rest.map Prod.fst <;> simp_all [push]

theorem Keyed.push (h : Keyed key queues) (x : α) : Keyed key (push key queues x) := by
  constructor
  · rw [keys_push]
    split
    · exact h.nodup
    · rename_i hnew
      exact List.Nodup.append h.nodup (List.nodup_singleton _) (by simpa using hnew)
  · intro e he y hy
    rcases mem_push he with he | ⟨hk, hitems⟩
    · exact h.own e he y hy
    · rcases hitems y hy with rfl | ⟨q, hq, hyq⟩
      · exact hk.symm
      · exact h.own _ hq y hyq

theorem keyed_fold (h : Keyed key queues) (xs : List α) :
    Keyed key (xs.foldl (RoundRobin.push key) queues) := by
  induction xs generalizing queues with
  | nil => exact h
  | cons x xs ih => exact ih (h.push x)

/-- A keyed queue is the only one with items of its key. -/
theorem Keyed.solo (h : Keyed key queues) {k : κ} (hk : k ∈ queues.map Prod.fst) :
    Solo (fun x => decide (key x = k)) (queueOf k queues) (queues.map Prod.snd) := by
  induction queues with
  | nil => cases hk
  | cons d rest ih =>
    obtain ⟨k', q⟩ := d
    have hnodup := List.nodup_cons.mp h.nodup
    have hown := h.own (k', q) List.mem_cons_self
    by_cases he : k' = k
    · subst he
      refine ⟨?_, [], rest.map Prod.snd, by simp [queueOf], ?_⟩
      · intro x hx
        rw [queueOf, if_pos rfl] at hx
        exact decide_eq_true (hown x hx)
      · intro o ho x hx
        obtain ⟨e, hemem, rfl⟩ := List.mem_map.mp ho
        refine decide_eq_false fun hkey => hnodup.1 ?_
        rw [← hkey, h.own e (List.mem_cons_of_mem _ hemem) x hx]
        exact List.mem_map.mpr ⟨e, hemem, rfl⟩
    · have hrest : Keyed key rest :=
        ⟨hnodup.2, fun e hmem => h.own e (List.mem_cons_of_mem _ hmem)⟩
      obtain ⟨hall, before, after, hsplit, hothers⟩ := ih hrest (by
        rcases List.mem_cons.mp hk with hk | hk
        · exact absurd hk.symm he
        · exact hk)
      rw [queueOf, if_neg he]
      refine ⟨hall, q :: before, after, by simp [hsplit], ?_⟩
      intro o ho x hx
      rcases List.mem_cons.mp ho with rfl | ho
      · exact decide_eq_false fun hkey => he ((hown x hx).symm.trans hkey)
      · exact hothers o ho x hx

theorem Solo.filter_flatten {p : α → Bool} {q : List α} {queues : List (List α)}
    (h : Solo p q queues) : queues.flatten.filter p = q := by
  obtain ⟨hq, before, after, rfl, hothers⟩ := h
  have hnone : ∀ l : List (List α), l ⊆ before ++ after → l.flatten.filter p = [] := by
    intro l hl
    rw [List.filter_eq_nil_iff]
    intro x hx
    obtain ⟨o, ho, hxo⟩ := List.mem_flatten.mp hx
    rw [hothers o (hl ho) x hxo]
    decide
  rw [List.flatten_append, List.flatten_cons, List.filter_append, List.filter_append,
    hnone before (List.subset_append_left _ _), hnone after (List.subset_append_right _ _),
    List.nil_append, List.append_nil]
  exact List.filter_eq_self.mpr hq

/-- What holds of any way to list all items that keeps the order of a queue on its own. -/
theorem filter_listing {listing : List (List α) → List α} (xs : List α) (k : κ)
    (hsolo : ∀ q queues, Solo (fun x => decide (key x = k)) q queues →
      (listing queues).filter (fun x => decide (key x = k)) = q)
    (hmem : ∀ queues, ∀ x ∈ listing queues, ∃ o ∈ queues, x ∈ o) :
    (listing (group key xs)).filter (fun x => decide (key x = k)) =
      xs.filter (fun x => decide (key x = k)) := by
  have hkeyed : Keyed key (xs.foldl (RoundRobin.push key) []) :=
    keyed_fold ⟨by simp, by simp⟩ xs
  have hqueue : queueOf k (xs.foldl (RoundRobin.push key) []) =
      queueOf k [] ++ xs.filter (fun x => key x = k) := queue_of_fold k xs []
  unfold group
  generalize xs.foldl (RoundRobin.push key) [] = queues at hkeyed hqueue
  rw [queueOf, List.nil_append] at hqueue
  rw [← hqueue]
  by_cases hk : k ∈ queues.map Prod.fst
  · exact hsolo _ _ (hkeyed.solo hk)
  · rw [queue_of_absent hk, List.filter_eq_nil_iff]
    intro x hx hkey
    obtain ⟨o, ho, hxo⟩ := hmem _ x hx
    obtain ⟨e, he, rfl⟩ := List.mem_map.mp ho
    rw [decide_eq_true_eq, hkeyed.own e he x hxo] at hkey
    exact hk (List.mem_map.mpr ⟨e, he, hkey⟩)

/-- Items of one key keep their order when they are grouped and merged. -/
theorem filter_merge_group (xs : List α) (start : Nat) (k : κ) :
    (merge (group key xs) start).filter (fun x => decide (key x = k)) =
      xs.filter (fun x => decide (key x = k)) :=
  filter_listing xs k (fun _ _ h => h.filter_merge start) fun _ _ h => mem_merge h

/-- Items of one key keep their order when they are only grouped. -/
theorem filter_group (xs : List α) (k : κ) :
    (group key xs).flatten.filter (fun x => decide (key x = k)) =
      xs.filter (fun x => decide (key x = k)) :=
  filter_listing xs k (fun _ _ h => h.filter_flatten) fun _ _ h => List.mem_flatten.mp h

theorem mem_of_group {xs : List α} {q : List α} {x : α} (hq : q ∈ group key xs) (hx : x ∈ q) :
    x ∈ xs := by
  have hmem : x ∈ (group key xs).flatten.filter (fun y => decide (key y = key x)) :=
    List.mem_filter.mpr ⟨List.mem_flatten.mpr ⟨q, hq, hx⟩, by simp⟩
  rw [filter_group] at hmem
  exact (List.mem_filter.mp hmem).1

theorem push_new {x : α} (h : key x ∉ queues.map Prod.fst) :
    push key queues x = queues ++ [(key x, [x])] := by
  induction queues with
  | nil => rfl
  | cons d rest ih =>
    rw [List.map_cons, List.mem_cons, not_or] at h
    rw [push, if_neg h.1, ih h.2]
    rfl

theorem push_last {x : α} {q : List α} (h : key x ∉ queues.map Prod.fst) :
    push key (queues ++ [(key x, q)]) x = queues ++ [(key x, q ++ [x])] := by
  induction queues with
  | nil => simp [push]
  | cons d rest ih =>
    rw [List.map_cons, List.mem_cons, not_or] at h
    rw [List.cons_append, push, if_neg h.1, ih h.2]
    rfl

/-- Items of one new key make one queue at the end. -/
theorem fold_block {k : κ} {q : List α} (hq : q ≠ []) (hk : ∀ x ∈ q, key x = k)
    (h : k ∉ queues.map Prod.fst) : q.foldl (push key) queues = queues ++ [(k, q)] := by
  induction q using List.reverseRecOn with
  | nil => exact absurd rfl hq
  | append_singleton q x ih =>
    have hx : key x = k := hk x (by simp)
    rw [List.foldl_append, List.foldl_cons, List.foldl_nil]
    cases q with
    | nil =>
      subst hx
      exact push_new h
    | cons y q =>
      rw [ih (List.cons_ne_nil _ _) fun z hz => hk z (List.mem_append_left _ hz)]
      subst hx
      exact push_last h

/-- Queues of distinct keys are the groups of all their items. -/
theorem group_blocks {blocks : List (List α)} {keys : List κ}
    (h : List.Forall₂ (fun q k => q ≠ [] ∧ ∀ x ∈ q, key x = k) blocks keys) (hn : keys.Nodup) :
    group key blocks.flatten = blocks := by
  have hfold : ∀ {blocks : List (List α)} {keys : List κ} (acc : List (κ × List α)),
      List.Forall₂ (fun q k => q ≠ [] ∧ ∀ x ∈ q, key x = k) blocks keys →
      (acc.map Prod.fst ++ keys).Nodup →
      (blocks.flatten.foldl (RoundRobin.push key) acc).map Prod.snd =
        acc.map Prod.snd ++ blocks := by
    intro blocks keys acc h
    induction h generalizing acc with
    | nil => simp
    | @cons q k blocks keys hq hrest ih =>
      intro hnodup
      have hnew : k ∉ acc.map Prod.fst := by
        intro hmem
        exact (List.nodup_append.mp hnodup).2.2 k hmem k List.mem_cons_self rfl
      rw [List.flatten_cons, List.foldl_append, fold_block hq.1 hq.2 hnew,
        ih (acc ++ [(k, q)]) (by simpa using hnodup)]
      simp
  unfold group
  simpa using hfold [] h (by simpa using hn)

/-- The first queue starts with the first item. -/
theorem group_cons (x : α) (xs : List α) :
    ∃ q rest, group key (x :: xs) = (x :: q) :: rest := by
  have hfold : ∀ (xs : List α) (k : κ) (q : List α) (rest : List (κ × List α)),
      ∃ q' rest', xs.foldl (RoundRobin.push key) ((k, x :: q) :: rest) = (k, x :: q') :: rest' := by
    intro xs
    induction xs with
    | nil => exact fun k q rest => ⟨q, rest, rfl⟩
    | cons y ys ih =>
      intro k q rest
      rw [List.foldl_cons, RoundRobin.push]
      split
      · exact ih k (q ++ [y]) rest
      · exact ih k q _
  obtain ⟨q, rest, heq⟩ := hfold xs (key x) [] []
  refine ⟨q, rest.map Prod.snd, ?_⟩
  unfold group
  rw [List.foldl_cons]
  change (xs.foldl (RoundRobin.push key) [(key x, [x])]).map Prod.snd = _
  rw [heq]
  rfl

theorem head_group_flatten (xs : List α) : (group key xs).flatten.head? = xs.head? := by
  cases xs with
  | nil => rfl
  | cons x xs =>
    obtain ⟨q, rest, heq⟩ : ∃ q rest, group key (x :: xs) = (x :: q) :: rest := group_cons x xs
    rw [heq]
    rfl

theorem head_merge_group (xs : List α) : (merge (group key xs) 0).head? = xs.head? := by
  cases xs with
  | nil => rfl
  | cons x xs =>
    obtain ⟨q, rest, heq⟩ : ∃ q rest, group key (x :: xs) = (x :: q) :: rest := group_cons x xs
    rw [heq]
    exact head_merge rfl

end Group

end RoundRobin
