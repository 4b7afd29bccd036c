import QueryPlan.Plan
import QueryPlan.Proofs.Compile.Slots
import QueryPlan.Proofs.Expr.Alignment

/-!
# Binding — the values that a plan reads from a template

A plan records positions of the template it was compiled from and follows them in another, alike one.
`Slot.Finds` says which scalar a slot stands for in a template, without mention of errors; binding
succeeds exactly when every slot finds one, and returns these (`Plan.bind_ok_iff`).

A slot names a literal of its own template (`Compile.Names`), and alike templates have literals at the
same positions (`Expr.literal_of_alike`).  So of the five ways in which a slot can fail, the two that
concern its position do not occur on an alike template.
-/

namespace QueryPlan

/-! ## Slots -/

namespace Sql
namespace Slot

variable {u : Expr} {slot : Slot} {value : Value}

/-- The scalar that a slot stands for in a template. -/
inductive Finds (u : Expr) : Slot → Value → Prop where
  /-- The literal at the slot's position. -/
  | literal {path : Path} {id : Nat} {ty : Ty} {value : Value}
      (found : u.resolve? path = some ⟨id, ty, .constant value⟩) (scalar : value.isScalar = true) :
      Finds u ⟨path, .literal⟩ value
  /-- The variable that the environment at the slot's position binds. -/
  | captured {path : Path} {id : Nat} {ty : Ty} {env : Env Value} {name : String} {value : Value}
      (found : u.resolve? path = some ⟨id, ty, .constant (.closure env)⟩)
      (bound : env.get? name = some value) (scalar : value.isScalar = true) :
      Finds u ⟨path, .captured name⟩ value

/-- At a literal, a slot is bound to what the literal provides, if that is a scalar. -/
theorem bind_of_literal {id : Nat} {ty : Ty} {literal : Value}
    (position : u.resolve? slot.path = some ⟨id, ty, .constant literal⟩) :
    slot.bind u = (slot.read literal).bind fun value =>
      if value.isScalar then .ok value else .error (.unbindable value.label slot.path) := by
  simp only [Slot.bind, position, Expr.asConstant?]
  rfl

/-- A slot that is bound stands at a literal. -/
theorem literal_of_bind (h : slot.bind u = .ok value) :
    ∃ id ty literal, u.resolve? slot.path = some ⟨id, ty, .constant literal⟩ := by
  simp only [Slot.bind] at h
  split at h
  · next node position =>
      rcases node with ⟨id, ty, n⟩
      cases n with
      | constant literal => exact ⟨id, ty, literal, position⟩
      | _ => cases h
  · cases h

/-- What a literal provides is the literal itself or one variable of an environment. -/
theorem read_ok_iff {literal : Value} :
    slot.read literal = .ok value ↔
      slot.source = .literal ∧ literal = value ∨
        ∃ name env, slot.source = .captured name ∧ literal = .closure env ∧
          env.get? name = some value := by
  rcases slot with ⟨path, source⟩
  cases source with
  | literal => simp [read]
  | captured name =>
      cases literal with
      | closure env => cases bound : env.get? name <;> simp [read, bound]
      | _ => simp [read]

/-- Binding a slot yields the scalar that the slot stands for, if there is one. -/
theorem bind_ok_iff : slot.bind u = .ok value ↔ slot.Finds u value := by
  constructor
  · intro h
    rcases literal_of_bind h with ⟨id, ty, literal, position⟩
    rw [bind_of_literal position] at h
    rcases slot with ⟨path, source⟩
    cases hread : read ⟨path, source⟩ literal with
    | error e =>
        rw [hread] at h
        cases h
    | ok provided =>
        rw [hread, Except.bind] at h
        split at h
        · next scalar =>
            cases h
            rcases read_ok_iff.1 hread with ⟨rfl, rfl⟩ | ⟨name, env, rfl, rfl, bound⟩
            · exact .literal position scalar
            · exact .captured position bound scalar
        · cases h
  · intro h
    cases h with
    | literal found scalar =>
        rw [bind_of_literal found, read_ok_iff.2 (.inl ⟨rfl, rfl⟩), Except.bind, if_pos scalar]
    | captured found bound scalar =>
        rw [bind_of_literal found, read_ok_iff.2 (.inr ⟨_, _, rfl, rfl, bound⟩), Except.bind,
          if_pos scalar]

end Slot
end Sql

/-! ## Lists of slots -/

section Lists

variable {α β ε : Type} {f : α → Except ε β} {as : List α}

/-- Running a fallible step on every entry succeeds exactly when each of the steps does. -/
theorem mapM_ok_iff {bs : List β} :
    as.mapM f = .ok bs ↔ List.Forall₂ (fun a b => f a = .ok b) as bs := by
  induction as generalizing bs with
  | nil => cases bs <;> simp [pure, Except.pure]
  | cons a as ih =>
      rw [List.mapM_cons]
      cases ha : f a with
      | error e => cases bs <;> simp [ha, bind, Except.bind]
      | ok b =>
          cases has : as.mapM f with
          | error e => cases bs <;> simp [ha, has, ← ih, bind, Except.bind]
          | ok rest => cases bs <;> simp [ha, has, ← ih, bind, Except.bind, pure, Except.pure]

end Lists

/-! ## Plans -/

namespace Plan

open Compile (Names Rule)
open Sql (Slot)

/-- A plan binds the list of scalars that its slots stand for. -/
theorem bind_ok_iff {plan : Plan} {u : Expr} {values : List Value} :
    plan.bind u = .ok values ↔ List.Forall₂ (Slot.Finds u) plan.query.slots values := by
  simp only [bind, mapM_ok_iff, Slot.bind_ok_iff]

section Namesakes

open Compile.Sample (namesakes)

/-- An environment may lack the variable, and then nothing is bound. -/
example :
    (Plan.compile 0 Rule.all Compile.Sample.schema
        (namesakes 30 (.ofList 0 [("name", .text "Ada")]))).toOption.map
          (·.bind (namesakes 40 (.empty 1))) =
      some (.error (.missingCapture "name" [0, 1, 0, 0, 1, 1, 0])) := by
  decide +kernel

end Namesakes

end Plan

end QueryPlan
