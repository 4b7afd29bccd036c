import QueryPlan.Session.World

/-!
# Ensures — what a computation on the shared state establishes

`Run.Ensures P m Q` says that `m`, started in a state that satisfies `P`, returns a result and ends in
a state that together satisfy `Q`.  Computations on the shared state always return, so there is
nothing to say about failure.
-/

namespace QueryPlan
namespace Run

variable {α β : Type} {P : World → Prop}

/-- From states that satisfy `P`, the result and the final state satisfy `Q`. -/
def Ensures (P : World → Prop) (m : Run α) (Q : α → World → Prop) : Prop :=
  ∀ w, P w → Q (m.run w).1 (m.run w).2

namespace Ensures

protected theorem pure {a : α} {Q : α → World → Prop} (h : ∀ w, P w → Q a w) :
    Ensures P (pure a) Q :=
  h

protected theorem bind {m : Run α} {f : α → Run β} {R : α → World → Prop} {Q : β → World → Prop}
    (hm : Ensures P m R) (hf : ∀ a, Ensures (R a) (f a) Q) : Ensures P (m >>= f) Q := by
  intro w hw
  exact hf _ _ (hm w hw)

/-- Less may be claimed. -/
theorem mono {m : Run α} {Q Q' : α → World → Prop} (h : Ensures P m Q)
    (weaker : ∀ a w, Q a w → Q' a w) : Ensures P m Q' :=
  fun w hw => weaker _ _ (h w hw)

/-- More may be assumed. -/
theorem of_stronger {P' : World → Prop} {m : Run α} {Q : α → World → Prop}
    (stronger : ∀ w, P' w → P w) (h : Ensures P m Q) : Ensures P' m Q :=
  fun w hw => h w (stronger w hw)

/-- A fact that does not depend on the state may be used to establish the rest. -/
theorem given {φ : Prop} {m : Run α} {Q : α → World → Prop} (h : φ → Ensures P m Q) :
    Ensures (fun w => φ ∧ P w) m Q :=
  fun w hw => h hw.1 w hw.2

/-- A state that has a property for some value may be taken to have it for any one value. -/
theorem forSome {γ : Type} {R : γ → World → Prop} {m : Run α} {Q : α → World → Prop}
    (h : ∀ c, Ensures (R c) m Q) : Ensures (fun w => ∃ c, R c w) m Q := by
  rintro w ⟨c, hw⟩
  exact h c w hw

protected theorem get : Ensures P get (fun a w => a = w ∧ P w) :=
  fun _ hw => ⟨rfl, hw⟩

protected theorem modify {change : World → World} {Q : Unit → World → Prop}
    (h : ∀ w, P w → Q () (change w)) : Ensures P (modify change) Q :=
  h

/-- An event is counted, or it is recorded for someone. -/
theorem report {observer : Observer} {event : Event} {Q : Unit → World → Prop}
    (counted : ∀ w, P w → Q () { w with counters := w.counters.apply event })
    (recorded : ∀ w, P w → Q () { w with effects := w.effects.push (.event observer event) }) :
    Ensures P (report observer event) Q := by
  refine Ensures.bind (R := fun _ => P) (fun _ hw => hw) fun w => ?_
  split
  · exact Ensures.modify counted
  · exact Ensures.modify recorded

/-- Reading the clock touches nothing but the durations to come. -/
protected theorem measure {Q : Nat → World → Prop}
    (h : ∀ w, P w → ∀ elapsed later, Q elapsed { w with durations := later }) :
    Ensures P measure Q :=
  fun w hw => h w hw _ _

/-- What each report keeps, reports in a row keep. -/
theorem reportAll {observer : Observer} (h : ∀ event, Ensures P (Run.report observer event) fun _ => P)
    (events : List Event) : Ensures P (reportAll observer events) fun _ => P := by
  unfold Run.reportAll
  induction events with
  | nil => exact Ensures.pure fun w hw => hw
  | cons event rest ih => exact Ensures.bind (h event) fun _ => ih

/-- Steps that keep a property keep it one after the other. -/
theorem mapM {f : α → Run β} {as : List α} (h : ∀ a ∈ as, Ensures P (f a) fun _ => P) :
    Ensures P (as.mapM f) fun _ => P := by
  induction as with
  | nil => exact Ensures.pure fun _ hw => hw
  | cons a as ih =>
      rw [List.forall_mem_cons] at h
      rw [List.mapM_cons]
      exact Ensures.bind h.1 fun _ => Ensures.bind (ih h.2) fun _ => Ensures.pure fun _ hw => hw

end Ensures

end Run
end QueryPlan
