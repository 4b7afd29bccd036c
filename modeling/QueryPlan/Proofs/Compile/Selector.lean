import QueryPlan.Compile.Link
import QueryPlan.Proofs.Compile.Conversion

/-!
# Selector — what successful projections and sort keys have done

A selector body is composite, when it constructs an object whose parts are the children of the body
from some index on, or it is a single value.  `Projects` and `Keyed` describe successful projections
and sort keys in the way `Converts` describes single expressions, and `projectionSlots` and
`keySlots` list the positions that are bound.
-/

namespace QueryPlan
namespace Compile

open Sql (Slot SlotSource Shape Term)

/-- A selector is a lambda with one parameter under its quotes. -/
theorem asSelector?_eq_some {argument body : Expr} {param : Param} :
    asSelector? argument = some (param, body) ↔ argument.unquoted.node = .lambda [param] body := by
  unfold asSelector? Expr.asLambda?
  constructor
  · intro h
    split at h
    · next hlambda =>
        split at hlambda
        · next hnode =>
            cases hlambda
            cases h
            exact hnode
        · cases hlambda
    · cases h
  · intro h
    simp only [h]

/-- The members and values of bindings, if all of them are plain assignments. -/
def assignments? : List (Binding Expr) → Option (List (Member × Expr))
  | [] => some []
  | .assign m value :: rest => (assignments? rest).map ((m, value) :: ·)
  | _ :: _ => none

/-- Plain assignments contribute their values as children, in order. -/
theorem childrenOf_of_assignments? {bindings : List (Binding Expr)} {fields : List (Member × Expr)}
    (h : assignments? bindings = some fields) :
    Binding.childrenOf bindings = fields.map (·.2) := by
  fun_induction assignments? bindings generalizing fields with
  | case1 =>
      cases h
      simp [Binding.childrenOf]
  | case2 m value rest ih =>
      rcases Option.map_eq_some_iff.1 h with ⟨others, hothers, rfl⟩
      simp [Binding.childrenOf, Binding.children, ih hothers]
  | case3 => cases h

/-! ## Consecutive values -/

/-- Consecutive children, the first of which has the given index, become terms used as values. -/
inductive ConvertsAll (slots : List Slot) (frame : Frame) (path : Path) :
    Nat → List Expr → List Term → Prop where
  | nil {index : Nat} : ConvertsAll slots frame path index [] []
  | cons {index : Nat} {e : Expr} {rest : List Expr} {τ : Term} {terms : List Term}
      (head : Converts slots frame (path ++ [index]) e τ)
      (tail : ConvertsAll slots frame path (index + 1) rest terms) :
      ConvertsAll slots frame path index (e :: rest) (asValue e.ty τ :: terms)

namespace ConvertsAll

theorem mono {slots slots' : List Slot} {frame : Frame} {path : Path} {index : Nat}
    {values : List Expr} {terms : List Term}
    (h : ConvertsAll slots frame path index values terms) (hle : slots <+: slots') :
    ConvertsAll slots' frame path index values terms := by
  induction h with
  | nil => exact .nil
  | cons head _ ih => exact .cons (head.mono hle) ih

theorem length_eq {slots : List Slot} {frame : Frame} {path : Path} {index : Nat}
    {values : List Expr} {terms : List Term}
    (h : ConvertsAll slots frame path index values terms) : terms.length = values.length := by
  induction h with
  | nil => rfl
  | cons _ _ ih => simp [ih]

end ConvertsAll

section Success

variable {frame : Frame} {path : Path} {slots slots' : List Slot}

theorem converts_of_run_value {e : Expr} {τ : Term}
    (h : (convertValue frame path e).run slots = .ok (τ, slots')) :
    slots' = slots ++ boundSlots path e ∧
      ∃ raw, τ = asValue e.ty raw ∧ Converts slots' frame path e raw := by
  rw [convertValue] at h
  rcases run_bind_pure_ok.1 h with ⟨raw, hraw, rfl⟩
  rcases converts_of_run hraw with ⟨hslots, hconv⟩
  exact ⟨hslots, raw, rfl, hconv⟩

theorem convertsAll_of_run {index : Nat} {values : List Expr} {terms : List Term}
    (h : (convertValues frame path index values).run slots = .ok (terms, slots')) :
    slots' = slots ++ valueSlots path index values ∧
      ConvertsAll slots' frame path index values terms := by
  induction values generalizing index slots slots' terms with
  | nil =>
      rw [convertValues, run_pure] at h
      cases h
      exact ⟨by simp [valueSlots], .nil⟩
  | cons e rest ih =>
      rw [convertValues] at h
      rcases run_bind_ok.1 h with ⟨τ, between, hτ, h⟩
      rcases run_bind_pure_ok.1 h with ⟨others, hothers, rfl⟩
      -- The head was converted before the slots of the tail were registered.
      rcases converts_of_run_value hτ with ⟨rfl, raw, rfl, hhead⟩
      rcases ih hothers with ⟨rfl, htail⟩
      exact ⟨by simp [valueSlots], .cons (hhead.mono (List.prefix_append _ _)) htail⟩

/-- Only plain assignments are converted, and their values as consecutive children are. -/
theorem convertsAll_of_run_assigned {index : Nat} {bindings : List (Binding Expr)}
    {assigned : List (String × Term)}
    (h : (convertAssigned frame path index bindings).run slots = .ok (assigned, slots')) :
    ∃ fields terms, assignments? bindings = some fields ∧
      assigned = (fields.map (·.1.name)).zip terms ∧
      slots' = slots ++ valueSlots path index (fields.map (·.2)) ∧
      ConvertsAll slots' frame path index (fields.map (·.2)) terms := by
  fun_induction convertAssigned frame path index bindings generalizing slots slots' assigned with
  | case1 index =>
      cases h
      exact ⟨[], [], rfl, rfl, by simp [valueSlots], .nil⟩
  | case2 index m value rest ih =>
      rcases run_bind_ok.1 h with ⟨τ, between, hτ, h⟩
      rcases run_bind_pure_ok.1 h with ⟨others, hothers, rfl⟩
      rcases converts_of_run_value hτ with ⟨rfl, raw, rfl, hhead⟩
      rcases ih hothers with ⟨fields, terms, hfields, rfl, rfl, htail⟩
      refine ⟨(m, value) :: fields, asValue value.ty raw :: terms, ?_, rfl, ?_, ?_⟩
      · rw [assignments?, hfields]
        rfl
      · simp [valueSlots]
      · exact .cons (hhead.mono (List.prefix_append _ _)) htail
  | case3 => cases h

end Success

/-! ## Projections -/

/-- The positions that a projection binds. -/
def projectionSlots (path : Path) (body : Expr) : List Slot :=
  match body.node with
  | .construct construction =>
      valueSlots path 0 (construction.args.take construction.members.length)
  | .memberInit construction bindings =>
      valueSlots path construction.args.length (((assignments? bindings).getD []).map (·.2))
  | _ => boundSlots path body

/-- A selector body projects to a shape. -/
inductive Projects (slots : List Slot) (frame : Frame) (path : Path) : Expr → Shape → Prop where
  | construct {id : Nat} {ty : Ty} {construction : Construction Expr} {terms : List Term}
      (named : construction.members.isEmpty = false)
      (values : ConvertsAll slots frame path 0
        (construction.args.take construction.members.length) terms) :
      Projects slots frame path ⟨id, ty, .construct construction⟩
        (.members ((construction.members.map (·.name)).zip terms))
  | memberInit {id : Nat} {ty : Ty} {construction : Construction Expr}
      {bindings : List (Binding Expr)} {fields : List (Member × Expr)} {terms : List Term}
      (assigned : assignments? bindings = some fields)
      (values : ConvertsAll slots frame path construction.args.length (fields.map (·.2)) terms) :
      Projects slots frame path ⟨id, ty, .memberInit construction bindings⟩
        (.members ((fields.map (·.1.name)).zip terms))
  | scalar {body : Expr} {τ : Term} (value : Converts slots frame path body τ) :
      Projects slots frame path body (.scalar (asValue body.ty τ))

theorem Projects.mono {slots slots' : List Slot} {frame : Frame} {path : Path} {body : Expr}
    {shape : Shape} (h : Projects slots frame path body shape) (hle : slots <+: slots') :
    Projects slots' frame path body shape := by
  cases h with
  | construct named values => exact .construct named (values.mono hle)
  | memberInit assigned values => exact .memberInit assigned (values.mono hle)
  | scalar value => exact .scalar (value.mono hle)

/-- A successful projection binds the positions listed and projects to the shape it returns. -/
theorem projects_of_run {frame : Frame} {path : Path} {slots slots' : List Slot} {body : Expr}
    {shape : Shape} (h : (Compiler.projection frame path body).run slots = .ok (shape, slots')) :
    slots' = slots ++ projectionSlots path body ∧ Projects slots' frame path body shape := by
  rcases body with ⟨id, ty, node⟩
  -- Every body that is not composite is handled alike.
  have scalar : (do return Shape.scalar (← convertValue frame path ⟨id, ty, node⟩) :
        Conversion Shape).run slots = .ok (shape, slots') →
      slots' = slots ++ boundSlots path ⟨id, ty, node⟩ ∧
        Projects slots' frame path ⟨id, ty, node⟩ shape := by
    intro h
    rcases run_bind_pure_ok.1 h with ⟨τ, hτ, rfl⟩
    rcases converts_of_run_value hτ with ⟨hslots, raw, rfl, hconv⟩
    exact ⟨hslots, .scalar hconv⟩
  unfold Compiler.projection at h
  cases node with
  | construct construction =>
      simp only at h
      split at h
      -- A construction without named members is converted as a value, which always fails.
      · rcases scalar h with ⟨_, hproj⟩
        cases hproj with
        | construct named _ => simp_all
        | scalar value => cases value
      · next named =>
          rcases run_bind_pure_ok.1 h with ⟨terms, hterms, rfl⟩
          rcases convertsAll_of_run hterms with ⟨hslots, hall⟩
          exact ⟨hslots, .construct (Bool.eq_false_iff.2 named) hall⟩
  | memberInit construction bindings =>
      rcases run_bind_pure_ok.1 h with ⟨assigned, hassigned, rfl⟩
      rcases convertsAll_of_run_assigned hassigned with ⟨fields, terms, hfields, rfl, hslots, hall⟩
      exact ⟨by simp [projectionSlots, hfields, hslots], .memberInit hfields hall⟩
  | _ => exact scalar h

/-! ## Sort keys -/

/-- The positions that a sort key binds. -/
def keySlots (path : Path) (body : Expr) : List Slot :=
  match body.node with
  | .construct construction => valueSlots path 0 construction.args
  | .memberInit construction bindings =>
      valueSlots path construction.args.length (((assignments? bindings).getD []).map (·.2))
  | _ => boundSlots path body

/-- A selector body gives the terms of a sort key. -/
inductive Keyed (slots : List Slot) (frame : Frame) (path : Path) : Expr → List Term → Prop where
  | construct {id : Nat} {ty : Ty} {construction : Construction Expr} {terms : List Term}
      (values : ConvertsAll slots frame path 0 construction.args terms) :
      Keyed slots frame path ⟨id, ty, .construct construction⟩ terms
  | memberInit {id : Nat} {ty : Ty} {construction : Construction Expr}
      {bindings : List (Binding Expr)} {fields : List (Member × Expr)} {terms : List Term}
      (assigned : assignments? bindings = some fields)
      (values : ConvertsAll slots frame path construction.args.length (fields.map (·.2)) terms) :
      Keyed slots frame path ⟨id, ty, .memberInit construction bindings⟩ terms
  | scalar {body : Expr} {τ : Term} (value : Converts slots frame path body τ) :
      Keyed slots frame path body [asValue body.ty τ]

theorem Keyed.mono {slots slots' : List Slot} {frame : Frame} {path : Path} {body : Expr}
    {terms : List Term} (h : Keyed slots frame path body terms) (hle : slots <+: slots') :
    Keyed slots' frame path body terms := by
  cases h with
  | construct values => exact .construct (values.mono hle)
  | memberInit assigned values => exact .memberInit assigned (values.mono hle)
  | scalar value => exact .scalar (value.mono hle)

/-- Successful sort keys bind the positions listed and are the terms described. -/
theorem keyed_of_run {frame : Frame} {path : Path} {slots slots' : List Slot} {body : Expr}
    {terms : List Term} (h : (Compiler.keys frame path body).run slots = .ok (terms, slots')) :
    slots' = slots ++ keySlots path body ∧ Keyed slots' frame path body terms := by
  rcases body with ⟨id, ty, node⟩
  unfold Compiler.keys at h
  cases node with
  | construct construction =>
      rcases convertsAll_of_run h with ⟨hslots, hall⟩
      exact ⟨hslots, .construct hall⟩
  | memberInit construction bindings =>
      rcases run_bind_pure_ok.1 h with ⟨assigned, hassigned, rfl⟩
      rcases convertsAll_of_run_assigned hassigned with ⟨fields, terms, hfields, rfl, hslots, hall⟩
      have hterms : ((fields.map (·.1.name)).zip terms).map (·.2) = terms :=
        List.map_snd_zip (by simp [hall.length_eq])
      rw [hterms]
      exact ⟨by simp [keySlots, hfields, hslots], .memberInit hfields hall⟩
  | _ =>
      rcases run_bind_pure_ok.1 h with ⟨τ, hτ, rfl⟩
      rcases converts_of_run_value hτ with ⟨hslots, raw, rfl, hconv⟩
      exact ⟨hslots, .scalar hconv⟩

end Compile
end QueryPlan
