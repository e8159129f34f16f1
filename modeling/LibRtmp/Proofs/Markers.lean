import Mathlib.Data.Finset.Card
import LibRtmp.Server.Pass

namespace LibRtmp.Proofs

inductive AbandonOp where
  | abandon (route : RouteKey)
  | drain

namespace AbandonOp

def apply (c : Conn) : AbandonOp → Conn
  | abandon route => c.tryPushPendingCacheEviction route
  | drain => (Server.drainPendingCacheEvictions { connections := [c] }).2.connections.headD c

def route : AbandonOp → Option RouteKey
  | abandon route => some route
  | drain => none

/-- The routes that are waiting, marked or just given up are few enough to be marked. -/
def fits (c : Conn) : AbandonOp → Prop
  | abandon route => (c.pendingCacheEvictions ++ c.abandonedRelayRoutes ++ [route]).dedup.length ≤
      maxPendingCacheEvictions
  | drain => True

end AbandonOp

def abandonedBy (ops : List AbandonOp) : List RouteKey := ops.filterMap AbandonOp.route

def newest (routes : List RouteKey) : List RouteKey :=
  routes.dedup.drop (routes.dedup.length - maxPendingCacheEvictions)

def afterAll (c : Conn) (ops : List AbandonOp) : Conn := ops.foldl AbandonOp.apply c

def AllFit : Conn → List AbandonOp → Prop
  | _, [] => True
  | c, op :: ops => op.fits c ∧ AllFit (op.apply c) ops

instance (c : Conn) (op : AbandonOp) : Decidable (op.fits c) :=
  match op with
  | .abandon _ => inferInstanceAs (Decidable (_ ≤ _))
  | .drain => inferInstanceAs (Decidable True)

instance decidableAllFit : (c : Conn) → (ops : List AbandonOp) → Decidable (AllFit c ops)
  | _, [] => inferInstanceAs (Decidable True)
  | c, op :: ops => @instDecidableAnd _ _ _ (decidableAllFit (op.apply c) ops)

section Marking

variable {c : Conn} {k : RouteKey}

theorem dedup_length_le {l l' : List RouteKey} (h : l ⊆ l') : l.dedup.length ≤ l'.dedup.length :=
  (l.nodup_dedup.subperm fun _ hr => List.mem_dedup.mpr (h (List.mem_dedup.mp hr))).length_le

/-- A route changed from queue to queue only, and no frame was dropped. -/
structure MarksAll (keys : List RouteKey) (c d : Conn) : Prop where
  frames : d.pendingRelay = c.pendingRelay
  evictions : d.pendingCacheEvictions = c.pendingCacheEvictions
  nodup : d.abandonedRelayRoutes.Nodup
  marked : ∀ k, k ∈ d.abandonedRelayRoutes ↔ k ∈ c.abandonedRelayRoutes ∨ k ∈ keys

/-- With room for one more marker, nothing is dropped. -/
theorem note_with_room (hn : c.abandonedRelayRoutes.Nodup)
    (hroom : (c.abandonedRelayRoutes ++ [k]).dedup.length ≤ maxPendingCacheEvictions) :
    MarksAll [k] c (c.noteAbandonedRelayRoute k) := by
  have hkept : ((c.abandonedRelayRoutes.filter (fun r => r ≠ k)) ++ [k]).Nodup := by
    refine List.Nodup.append (hn.filter _) (List.nodup_singleton k) ?_
    intro r hr hk
    rw [List.mem_singleton.mp hk] at hr
    simp at hr
  have hshort : (c.abandonedRelayRoutes.filter (fun r => r ≠ k)).length <
      maxPendingCacheEvictions := by
    have hsub : (c.abandonedRelayRoutes.filter (fun r => r ≠ k)) ++ [k] ⊆
        (c.abandonedRelayRoutes ++ [k]).dedup := by
      intro r hr
      rw [List.mem_dedup]
      exact (List.mem_append.mp hr).elim
        (fun hr => List.mem_append_left _ (List.mem_filter.mp hr).1) (List.mem_append_right _)
    have hlen := (hkept.subperm hsub).length_le
    rw [List.length_append, List.length_singleton] at hlen
    omega
  have heq : c.noteAbandonedRelayRoute k =
      { c with abandonedRelayRoutes := c.abandonedRelayRoutes.filter (fun r => r ≠ k) ++ [k] } := by
    unfold Conn.noteAbandonedRelayRoute
    dsimp only
    split
    · exact if_neg (Nat.not_le.mpr hshort)
    · rename_i hnil
      rw [hnil]
      rfl
  rw [heq]
  refine ⟨rfl, rfl, hkept, fun r => ?_⟩
  by_cases hr : r = k <;> simp [hr]

/-- With room for all, no marker is dropped. -/
theorem note_all_with_room {keys : List RouteKey} (hn : c.abandonedRelayRoutes.Nodup)
    (hroom : (c.abandonedRelayRoutes ++ keys).dedup.length ≤ maxPendingCacheEvictions) :
    MarksAll keys c (keys.foldl Conn.noteAbandonedRelayRoute c) := by
  induction keys generalizing c with
  | nil => exact ⟨rfl, rfl, hn, by simp⟩
  | cons key keys ih =>
    have hfirst : c.abandonedRelayRoutes ++ [key] ⊆ c.abandonedRelayRoutes ++ key :: keys := by
      rw [List.append_cons c.abandonedRelayRoutes key keys]
      exact List.subset_append_left _ _
    have hone := note_with_room hn (Nat.le_trans (dedup_length_le hfirst) hroom)
    have hsub : (c.noteAbandonedRelayRoute key).abandonedRelayRoutes ++ keys ⊆
        c.abandonedRelayRoutes ++ key :: keys := by
      intro r hr
      rcases List.mem_append.mp hr with hr | hr
      · rcases (hone.marked r).mp hr with hr | hr
        · exact List.mem_append_left _ hr
        · exact List.mem_append_right _ (List.mem_singleton.mp hr ▸ List.mem_cons_self)
      · exact List.mem_append_right _ (List.mem_cons_of_mem _ hr)
    have hrest := ih hone.nodup (Nat.le_trans (dedup_length_le hsub) hroom)
    refine ⟨hrest.frames.trans hone.frames, hrest.evictions.trans hone.evictions, hrest.nodup, ?_⟩
    intro r
    rw [List.foldl_cons, hrest.marked, hone.marked, List.mem_singleton, List.mem_cons, or_assoc]

theorem drain_eq (c : Conn) : AbandonOp.drain.apply c =
    (c.pendingCacheEvictions ++ c.abandonedRelayRoutes).foldl Conn.noteAbandonedRelayRoute
      { c with pendingCacheEvictions := [] } := rfl

end Marking

structure Remembered (start c : Conn) (routes : List RouteKey) : Prop where
  frames : c.pendingRelay = start.pendingRelay
  nodup : c.abandonedRelayRoutes.Nodup
  held : ∀ k, k ∈ c.pendingCacheEvictions ∨ k ∈ c.abandonedRelayRoutes ↔ k ∈ routes
  few : routes.dedup.length ≤ maxPendingCacheEvictions

section Sequences

variable {start c : Conn} {routes : List RouteKey}

theorem Remembered.dedup_length (h : Remembered start c routes) (more : List RouteKey) :
    (c.pendingCacheEvictions ++ c.abandonedRelayRoutes ++ more).dedup.length =
      (routes ++ more).dedup.length := by
  refine List.Perm.length_eq ((List.perm_ext_iff_of_nodup (List.nodup_dedup _)
    (List.nodup_dedup _)).mpr fun k => ?_)
  simp only [List.mem_dedup, List.mem_append, h.held k]

theorem Remembered.drain (h : Remembered start c routes) :
    Remembered start (AbandonOp.drain.apply c) routes ∧
      (AbandonOp.drain.apply c).abandonedRelayRoutes.Perm routes.dedup := by
  have hroom : (c.abandonedRelayRoutes ++
      (c.pendingCacheEvictions ++ c.abandonedRelayRoutes)).dedup.length ≤
        maxPendingCacheEvictions := by
    refine Nat.le_trans (dedup_length_le fun k hk => ?_) h.few
    rw [List.mem_append, List.mem_append] at hk
    exact (h.held k).mp (hk.elim .inr id)
  have hmarks := note_all_with_room (c := { c with pendingCacheEvictions := [] }) h.nodup hroom
  have hall : ∀ k, k ∈ (AbandonOp.drain.apply c).abandonedRelayRoutes ↔ k ∈ routes := by
    intro k
    rw [drain_eq, hmarks.marked, ← h.held k, List.mem_append]
    dsimp only
    tauto
  rw [drain_eq] at hall ⊢
  refine ⟨⟨hmarks.frames.trans h.frames, hmarks.nodup, fun k => ?_, h.few⟩, ?_⟩
  · rw [hmarks.evictions, hall]
    simp
  · refine (List.perm_ext_iff_of_nodup hmarks.nodup (List.nodup_dedup _)).mpr fun k => ?_
    rw [hall, List.mem_dedup]

/-- The route given up last is remembered. -/
theorem Remembered.abandon (h : Remembered start c routes) {route : RouteKey}
    (hfits : (AbandonOp.abandon route).fits c) :
    Remembered start ((AbandonOp.abandon route).apply c) (routes ++ [route]) := by
  have hfew : (routes ++ [route]).dedup.length ≤ maxPendingCacheEvictions :=
    h.dedup_length [route] ▸ hfits
  unfold AbandonOp.apply Conn.tryPushPendingCacheEviction
  dsimp only
  split
  · rename_i old rest hold
    split
    · have hroom : (c.abandonedRelayRoutes ++ [old]).dedup.length ≤ maxPendingCacheEvictions := by
        refine Nat.le_trans (dedup_length_le fun k hk => ?_) h.few
        refine (h.held k).mp ((List.mem_append.mp hk).symm.imp_left fun hk => ?_)
        rw [hold, List.mem_singleton.mp hk]
        exact List.mem_cons_self
      have hmarks := note_with_room (c := { c with pendingCacheEvictions := rest }) h.nodup hroom
      refine ⟨hmarks.frames.trans h.frames, hmarks.nodup, fun k => ?_, hfew⟩
      dsimp only
      rw [hmarks.evictions, hmarks.marked, List.mem_append, List.mem_append, ← h.held k, hold]
      simp only [List.mem_cons, List.not_mem_nil, or_false]
      tauto
    · refine ⟨h.frames, h.nodup, fun k => ?_, hfew⟩
      dsimp only
      rw [List.mem_append, List.mem_append, ← h.held k]
      tauto
  · refine ⟨h.frames, h.nodup, fun k => ?_, hfew⟩
    dsimp only
    rw [List.mem_append, List.mem_append, ← h.held k]
    tauto

theorem Remembered.run (h : Remembered start c routes) {ops more : List AbandonOp}
    (hfit : AllFit c (ops ++ more)) :
    Remembered start (afterAll c ops) (routes ++ abandonedBy ops) ∧
      AllFit (afterAll c ops) more := by
  induction ops generalizing c routes with
  | nil => exact ⟨(List.append_nil routes).symm ▸ h, hfit⟩
  | cons op ops ih =>
    obtain ⟨hfits, hrest⟩ := hfit
    cases op with
    | abandon route =>
      have hdone := ih (h.abandon hfits) hrest
      rw [List.append_assoc] at hdone
      exact hdone
    | drain => exact ih h.drain.1 hrest

end Sequences

/-- From empty queues, while the routes given up fit the markers: a drain marks the routes given
up last, and no step drops a frame queued for one of them. -/
theorem newest_abandonments_remembered (c : Conn) (he : c.pendingCacheEvictions = [])
    (hm : c.abandonedRelayRoutes = []) (ops more : List AbandonOp) (op : AbandonOp)
    (hfit : AllFit c (ops ++ op :: more)) :
    (op = .drain → (afterAll c (ops ++ [op])).abandonedRelayRoutes.Perm
      (newest (abandonedBy (ops ++ [op])))) ∧
    ∀ f ∈ (afterAll c ops).pendingRelay, f.route ∈ newest (abandonedBy (ops ++ [op])) →
      f ∈ (afterAll c (ops ++ [op])).pendingRelay := by
  have hstart : Remembered c c [] := ⟨rfl, by simp [hm], by simp [he, hm], by decide⟩
  have hfit' : AllFit c ((ops ++ [op]) ++ more) := by simpa using hfit
  have hbefore := (hstart.run hfit).1
  have hafter := (hstart.run hfit').1
  rw [List.nil_append] at hbefore hafter
  have hnewest : newest (abandonedBy (ops ++ [op])) = (abandonedBy (ops ++ [op])).dedup := by
    unfold newest
    rw [Nat.sub_eq_zero_of_le hafter.few, List.drop_zero]
  constructor
  · rintro rfl
    have hsame : abandonedBy (ops ++ [.drain]) = abandonedBy ops := by
      simp [abandonedBy, AbandonOp.route]
    rw [hnewest, hsame]
    unfold afterAll
    rw [List.foldl_append]
    exact hbefore.drain.2
  · intro f hf _
    rw [hafter.frames, ← hbefore.frames]
    exact hf

def numberedRoute (i : Nat) : RouteKey := ("live", String.singleton (Char.ofNat (48 + i)))

def withFrameFor (route : RouteKey) : Conn :=
  { connId := 1, pendingRelay := [⟨.audio, 0, [], none, route.1, route.2, 1⟩] }

def twoAbandoned : List AbandonOp :=
  [.abandon (numberedRoute 0), .drain, .abandon (numberedRoute 1)]

theorem two_routes_remembered :
    (afterAll (withFrameFor (numberedRoute 1)) (twoAbandoned ++ [.drain])).abandonedRelayRoutes.Perm
      (newest (abandonedBy (twoAbandoned ++ [.drain]))) := by
  have hfit : AllFit (withFrameFor (numberedRoute 1)) (twoAbandoned ++ [.drain]) := by
    decide +kernel
  exact (newest_abandonments_remembered _ rfl rfl twoAbandoned [] .drain hfit).1 rfl

/-- As many routes as can be marked are given up and drained, and then one more. -/
def oneTooMany : List AbandonOp :=
  (List.range 64).map (fun i => .abandon (numberedRoute i)) ++
    [.drain, .abandon (numberedRoute 64), .drain]

/-- The drain marks the old routes again after the new one, which loses its place and its frame. -/
theorem newest_abandonment_forgotten :
    numberedRoute 64 ∈ newest (abandonedBy oneTooMany) ∧
    numberedRoute 64 ∉ (afterAll (withFrameFor (numberedRoute 64)) oneTooMany).abandonedRelayRoutes ∧
    (withFrameFor (numberedRoute 64)).pendingRelay.length = 1 ∧
    (afterAll (withFrameFor (numberedRoute 64)) oneTooMany).pendingRelay = [] := by
  decide +kernel

end LibRtmp.Proofs
