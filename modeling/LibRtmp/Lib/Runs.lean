import Mathlib.Tactic.Common

namespace Runs

def exec {S E : Type} (step : S → E → S) : S → List E → S
  | s, [] => s
  | s, e :: es => exec step (step s e) es

theorem exec_append {S E : Type} (step : S → E → S) (s : S) (es fs : List E) :
    exec step s (es ++ fs) = exec step (exec step s es) fs := by
  induction es generalizing s with
  | nil => rfl
  | cons e es ih => exact ih (step s e)

/-- What every step keeps, every run keeps. -/
theorem exec_invariant {S E : Type} {step : S → E → S} {inv : S → Prop}
    (keep : ∀ s e, inv s → inv (step s e)) {s : S} (hs : inv s) (es : List E) :
    inv (exec step s es) := by
  induction es generalizing s with
  | nil => exact hs
  | cons e es ih => exact ih (keep s e hs)

/-- A condition on each event and the state it finds. -/
def Throughout {S E : Type} (step : S → E → S) (cond : S → E → Prop) : S → List E → Prop
  | _, [] => True
  | s, e :: es => cond s e ∧ Throughout step cond (step s e) es

/-- What every step under a condition keeps, every run under it keeps. -/
theorem exec_invariant_while {S E : Type} {step : S → E → S} {cond : S → E → Prop}
    {inv : S → Prop} (keep : ∀ s e, inv s → cond s e → inv (step s e)) {s : S} (hs : inv s)
    {es : List E} (hcond : Throughout step cond s es) : inv (exec step s es) := by
  induction es generalizing s with
  | nil => exact hs
  | cons e es ih => exact ih (keep s e hs hcond.1) hcond.2

/-- All states of a run are good exactly if the condition of each step was met throughout. -/
theorem good_iff_throughout {S E : Type} {step : S → E → S} {cond : S → E → Prop}
    {inv good : S → Prop} (keep : ∀ s e, inv s → cond s e → inv (step s e))
    (spoil : ∀ s e, inv s → ¬ cond s e → ¬ good (step s e)) (hgood : ∀ s, inv s → good s) {s : S}
    (hs : inv s) (es : List E) :
    (∀ past, past <+: es → good (exec step s past)) ↔ Throughout step cond s es := by
  induction es generalizing s with
  | nil =>
    refine ⟨fun _ => trivial, fun _ past hp => ?_⟩
    rw [List.prefix_nil.mp hp]
    exact hgood s hs
  | cons e es ih =>
    constructor
    · intro h
      have hcond : cond s e := by
        by_contra hbad
        exact spoil s e hs hbad (h [e] (List.prefix_append [e] es))
      refine ⟨hcond, (ih (keep s e hs hcond)).mp fun past hp => ?_⟩
      exact h (e :: past) (List.cons_prefix_cons.mpr ⟨rfl, hp⟩)
    · rintro ⟨hcond, hrest⟩ past hp
      cases past with
      | nil => exact hgood s hs
      | cons f past =>
        obtain ⟨rfl, htail⟩ := List.cons_prefix_cons.mp hp
        exact (ih (keep s f hs hcond)).mpr hrest past htail

def calls {S E R : Type} (step : S → E → Option (S × R)) : S → List E → Option (S × List R)
  | s, [] => some (s, [])
  | s, e :: es =>
    match step s e with
    | none => none
    | some (s', r) => (calls step s' es).map (fun (t, rs) => (t, r :: rs))

def total {S E R : Type} (step : S → E → S × R) : S → List E → S × List R
  | s, [] => (s, [])
  | s, e :: es => ((total step (step s e).1 es).1, (step s e).2 :: (total step (step s e).1 es).2)

/-- A step-by-step match of two machines is a match of their whole runs. -/
theorem calls_simulate {S A E R : Type} {step : S → E → Option (S × R)} {spec : A → E → A × R}
    {rel : S → A → Prop}
    (sim : ∀ s a e, rel s a → ∃ t, step s e = some (t, (spec a e).2) ∧ rel t (spec a e).1)
    {s : S} {a : A} (h : rel s a) (es : List E) :
    ∃ t, calls step s es = some (t, (total spec a es).2) ∧ rel t (total spec a es).1 := by
  induction es generalizing s a with
  | nil => exact ⟨s, rfl, h⟩
  | cons e es ih =>
    obtain ⟨t, ht, hr⟩ := sim s a e h
    obtain ⟨u, hu, hru⟩ := ih hr
    exact ⟨u, by simp [calls, total, ht, hu], hru⟩

end Runs
