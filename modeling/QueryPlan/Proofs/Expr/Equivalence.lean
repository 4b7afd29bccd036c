import QueryPlan.Proofs.Expr.Alignment

/-!
# Equivalence — being alike is symmetric and transitive

Whether two templates are alike is decided by shortcuts for one object, by a comparison of labels and
by a comparison of literals that is not reflexive: a float that is no number does not agree with
itself.  Reflexivity therefore rests on the shortcut alone.  Symmetry and transitivity hold of each
layer of the comparison, and pass from the children of a node to the node.
-/

namespace QueryPlan

/-! ## Literals -/

section Floats

open Float.Model

/-- Exponents are compared first and mantissas if these agree. -/
theorem magnitude_eq_iff {e e' : Int} {m m' : Nat} :
    (compare e e').then (compare m m') = .eq ↔ e = e' ∧ m = m' := by
  simp [Ordering.then_eq_eq]

/-- Unpacked floats compare as equal when they are the same number; zeros have two forms. -/
theorem compare_eq_iff (x y : UnpackedFloat) :
    x.compare y = some .eq ↔ x = y ∧ x ≠ .notANumber ∨ ∃ s s', x = .zero s ∧ y = .zero s' := by
  constructor
  · intro h
    rcases x with (_ | _) | _ | s | ⟨(_ | _), m, e, pos⟩ <;>
      rcases y with (_ | _) | _ | s' | ⟨(_ | _), m', e', pos'⟩ <;> try cases h
    -- What is left is equal infinities, two zeros and two numbers of one sign.
    case mp.zero.zero.refl => exact .inr ⟨s, s', rfl, rfl⟩
    case mp.finite.negative.finite.negative =>
      have swapped : ((compare e e').then (compare m m')).swap = .eq := Option.some.inj h
      obtain ⟨rfl, rfl⟩ := magnitude_eq_iff.1 (Ordering.swap_eq_eq.1 swapped)
      exact .inl ⟨rfl, nofun⟩
    case mp.finite.positive.finite.positive =>
      obtain ⟨rfl, rfl⟩ := magnitude_eq_iff.1 (Option.some.inj h)
      exact .inl ⟨rfl, nofun⟩
    all_goals exact .inl ⟨rfl, nofun⟩
  · rintro (⟨rfl, number⟩ | ⟨s, s', rfl, rfl⟩)
    · have same : ∀ (m : Nat) (e : Int), (compare e e).then (compare m m) = .eq := fun m e =>
        magnitude_eq_iff.2 ⟨rfl, rfl⟩
      rcases x with (_ | _) | _ | s | ⟨(_ | _), m, e, pos⟩
      case mpr.inl.notANumber => exact absurd rfl number
      case mpr.inl.finite.negative => exact congrArg some (congrArg Ordering.swap (same m e))
      case mpr.inl.finite.positive => exact congrArg some (same m e)
      all_goals rfl
    · rfl

theorem float_beq_iff {a b : Float} :
    (a == b) = true ↔ a.toModel.unpack.compare b.toModel.unpack = some .eq := by
  change (a.toModel.unpack.compare b.toModel.unpack == some .eq) = true ↔ _
  exact beq_iff_eq

theorem float_beq_symm {a b : Float} (h : (a == b) = true) : (b == a) = true := by
  rw [float_beq_iff, compare_eq_iff] at h ⊢
  rcases h with ⟨heq, hnumber⟩ | ⟨s, s', ha, hb⟩
  · exact .inl ⟨heq.symm, heq ▸ hnumber⟩
  · exact .inr ⟨s', s, hb, ha⟩

theorem float_beq_trans {a b c : Float} (h : (a == b) = true) (h' : (b == c) = true) :
    (a == c) = true := by
  rw [float_beq_iff, compare_eq_iff] at h h' ⊢
  rcases h with ⟨heq, -⟩ | ⟨s, s', ha, hb⟩
  · rw [heq]
    exact h'
  · rcases h' with ⟨heq, -⟩ | ⟨-, t', -, hc⟩
    · exact .inr ⟨s, s', ha, heq ▸ hb⟩
    · exact .inr ⟨s, t', ha, hc⟩

end Floats

namespace Value

theorem agrees_symm {v w : Value} (h : v.agrees w = true) : w.agrees v = true := by
  cases v <;> cases w <;> simp only [agrees, beq_iff_eq, Bool.false_eq_true] at h ⊢
  all_goals first | exact h.symm | exact float_beq_symm h

theorem agrees_trans {u v w : Value} (h : u.agrees v = true) (h' : v.agrees w = true) :
    u.agrees w = true := by
  cases u <;> cases v <;> simp only [agrees, beq_iff_eq, Bool.false_eq_true] at h <;>
    cases w <;> simp only [agrees, beq_iff_eq, Bool.false_eq_true] at h' ⊢
  all_goals first | exact h.trans h' | exact float_beq_trans h h'

end Value

namespace Expr

theorem constant_of_label {n n' : Node Expr} {v : Value} (hlabel : n.label = n'.label)
    (h : n = .constant v) : ∃ v', n' = .constant v' := by
  subst h
  cases n' with
  | constant v' => exact ⟨v', rfl⟩
  | _ => simp [Node.label] at hlabel

theorem LiteralsAgree.symm {ty : Ty} {n n' : Node Expr} (h : LiteralsAgree ty n n') :
    LiteralsAgree ty n' n := by
  intro v v' hv hv'
  exact (h v' v hv' hv).imp_right Value.agrees_symm

theorem LiteralsAgree.trans {ty : Ty} {n n' n'' : Node Expr} (hlabel : n.label = n'.label)
    (h : LiteralsAgree ty n n') (h' : LiteralsAgree ty n' n'') : LiteralsAgree ty n n'' := by
  intro v v'' hv hv''
  rcases constant_of_label hlabel hv with ⟨v', hv'⟩
  rcases h v v' hv hv' with hopaque | hagree
  · exact .inl hopaque
  · exact (h' v' v'' hv' hv'').imp_right (Value.agrees_trans hagree)

/-! ## Templates -/

section Lists

variable {α : Type} {R : α → α → Prop} {as bs cs : List α}

theorem forall₂_imp_of_mem {S : α → α → Prop} (step : ∀ a ∈ as, ∀ b, R a b → S a b)
    (h : List.Forall₂ R as bs) : List.Forall₂ S as bs := by
  have hboth : List.Forall₂ (fun a b => (∀ b, R a b → S a b) ∧ R a b) as bs :=
    (List.forall₂_and_left as bs).2 ⟨step, h⟩
  exact hboth.imp fun a b hab => hab.1 b hab.2

theorem forall₂_symm_of_mem (step : ∀ a ∈ as, ∀ b, R a b → R b a) (h : List.Forall₂ R as bs) :
    List.Forall₂ R bs as :=
  (forall₂_imp_of_mem step h).flip

theorem forall₂_trans_of_mem (step : ∀ a ∈ as, ∀ b c, R a b → R b c → R a c)
    (h : List.Forall₂ R as bs) (h' : List.Forall₂ R bs cs) : List.Forall₂ R as cs := by
  induction h generalizing cs with
  | nil =>
      cases h'
      exact .nil
  | cons hab _ ih =>
      cases h' with
      | cons hbc hrest =>
          rw [List.forall_mem_cons] at step
          exact .cons (step.1 _ _ hab hbc) (ih step.2 hrest)

end Lists

theorem alike_symm {a b : Expr} (h : a.alike b = true) : b.alike a = true := by
  induction a using inductionOnChildren generalizing b with
  | step a ih =>
      rcases alike_iff.1 h with rfl | ⟨hty, hlabel, hliterals, hchildren⟩
      · exact alike_refl a
      · have hback : List.Forall₂ Alike b.children a.children :=
          forall₂_symm_of_mem (fun c hc d hcd => ih c hc hcd) hchildren
        exact alike_iff.2 (.inr ⟨hty.symm, hlabel.symm, hty ▸ hliterals.symm, hback⟩)

theorem alike_trans {a b c : Expr} (h : a.alike b = true) (h' : b.alike c = true) :
    a.alike c = true := by
  induction a using inductionOnChildren generalizing b c with
  | step a ih =>
      -- A shortcut on either side leaves the comparison on the other side.
      rcases alike_iff.1 h with rfl | ⟨hty, hlabel, hliterals, hchildren⟩
      · exact h'
      · rcases alike_iff.1 h' with rfl | ⟨hty', hlabel', hliterals', hchildren'⟩
        · exact h
        · have hall : List.Forall₂ Alike a.children c.children :=
            forall₂_trans_of_mem (fun d hd e f hde hef => ih d hd hde hef) hchildren hchildren'
          have hboth : LiteralsAgree a.ty a.node c.node :=
            .trans hlabel hliterals (hty ▸ hliterals')
          exact alike_iff.2 (.inr ⟨hty.trans hty', hlabel.trans hlabel', hboth, hall⟩)

theorem alike_equivalence : Equivalence Alike :=
  ⟨alike_refl, alike_symm, alike_trans⟩

/-- Matching is an equivalence relation on templates that may be absent, whatever their literals. -/
theorem matching_equivalence : Equivalence fun a b : Option Expr => alikeOption a b = true where
  refl a := by
    cases a with
    | none => rfl
    | some a => exact alike_equivalence.refl a
  symm {a b} h := by
    cases a with
    | none =>
        cases b with
        | none => rfl
        | some b => cases h
    | some a =>
        cases b with
        | none => cases h
        | some b => exact alike_equivalence.symm h
  trans {a b c} h h' := by
    cases a with
    | none =>
        cases b with
        | none => exact h'
        | some b => cases h
    | some a =>
        cases b with
        | none => cases h
        | some b =>
            cases c with
            | none => cases h'
            | some c => exact alike_equivalence.trans h h'

/-- A float that is no number does not agree with itself: its literal is alike to itself, and not to a
copy of it. -/
example :
    let literal : Expr := ⟨0, .int32, .constant (.float (0 / 0))⟩
    literal.alike literal = true ∧ literal.alike { literal with id := 1 } = false := by
  decide +kernel

end Expr

end QueryPlan
