import QueryPlan.Plan
import QueryPlan.Proofs.Compile.Derivation

/-!
# Registry — which rule a link is handed to

The rules accept disjoint sets of links: a table literal has its rule and an operator call has the
rule of its operator (`Rule.accepts_iff_of_link`).  The order of a registry is therefore without
consequence, and so are rules beyond the ones that a template needs: with more rules, a template that
was not refused has the same outcome (`Compiler.query_monotone`).
-/

namespace QueryPlan
namespace Compile

open Sql (Context Query)

/-! ## The rule of a link -/

/-- The rule that extends a query by an operator. -/
def Rule.ofOperator : Operator → Rule
  | .filter => .filter
  | .select => .select
  | .orderBy | .orderByDescending | .thenBy | .thenByDescending => .sort
  | .take | .skip => .page

namespace Rule

variable {rule rule' : Rule} {e : Expr} {link : Link}

/-- An operator call is accepted by the rule of its operator and by no other one. -/
theorem accepts_iff_of_link (call : Link.ofExpr? e = some link) :
    rule.accepts e = true ↔ rule = .ofOperator link.operator := by
  cases rule with
  | table =>
      rcases Link.ofExpr?_eq_some.1 call with ⟨id, ty, m, rfl, -⟩
      cases link.operator <;> simp [accepts, ofOperator]
  | _ => cases hop : link.operator <;> simp [accepts, ofOperator, call, hop, SortKind.ofOperator?]

/-- No two rules accept the same link. -/
theorem accepts_unique (h : rule.accepts e = true) (h' : rule'.accepts e = true) : rule = rule' := by
  cases call : Link.ofExpr? e with
  | none =>
      rw [(Compiler.table_of_accepts call h).1, (Compiler.table_of_accepts call h').1]
  | some link =>
      rw [(accepts_iff_of_link call).1 h, (accepts_iff_of_link call).1 h']

end Rule

/-- The rule that a registry finds for a link is the one it holds that accepts the link. -/
theorem Compiler.findRule?_eq_some {c : Compiler} {e : Expr} {rule : Rule} :
    c.findRule? e = some rule ↔ rule ∈ c.rules ∧ rule.accepts e = true := by
  unfold findRule?
  constructor
  · intro h
    exact ⟨List.mem_of_find?_eq_some h, by simpa using List.find?_some h⟩
  · rintro ⟨hmem, accepted⟩
    cases hfind : c.rules.find? (·.accepts e) with
    | none => exact absurd accepted (List.find?_eq_none.1 hfind rule hmem)
    | some found =>
        have haccepts : found.accepts e = true := by simpa using List.find?_some hfind
        rw [Rule.accepts_unique haccepts accepted]

/-! ## More rules -/

/-- An outcome is kept: it is the second one as well, unless it is that a link has no rule. -/
inductive Kept {α : Type} : Except CompileError α → Except CompileError α → Prop where
  | refl {result : Except CompileError α} : Kept result result
  | refused {description : String} {result : Except CompileError α} :
      Kept (.error (.unacceptedLink description)) result

namespace Kept

variable {α β : Type}

theorem bind {m m' : Except CompileError α} {f : α → Except CompileError β} (h : Kept m m') :
    Kept (m >>= f) (m' >>= f) := by
  cases h with
  | refl => exact .refl
  | refused => exact .refused

theorem bind_const {m : Except CompileError α} {f f' : α → Except CompileError β}
    (h : ∀ a, Kept (f a) (f' a)) : Kept (m >>= f) (m >>= f') := by
  cases m with
  | error e => exact .refl
  | ok a => exact h a

/-- A result is kept. -/
theorem eq_ok {a : α} {result : Except CompileError α} (h : Kept (.ok a) result) :
    result = .ok a := by
  cases h
  rfl

end Kept

namespace Compiler

variable {c c' : Compiler} {e : Expr}

/-- A rule asks its compiler for the schema and for positions, not for other rules, and passes on a
refusal of the chain below. -/
theorem extend_kept (rule : Rule) (schema : c.schema = c'.schema) (root : c.root = c'.root)
    {below below' : Unit → Except CompileError Context} (h : Kept (below ()) (below' ())) :
    Kept (c.extend rule e below) (c'.extend rule e below') := by
  have harg : c.argPath e 0 = c'.argPath e 0 := by
    rw [argPath, argPath, root]
  unfold extend
  split
  · rw [startTable, startTable, schema]
    exact .refl
  · rw [extendFilter, extendFilter, harg]
    exact h.bind
  · unfold extendSelect
    split
    · exact .refl
    · simp only [project, harg]
      exact h.bind
  · unfold extendSort
    split
    · exact .refl
    · rw [harg]
      exact .bind_const fun _ => h.bind
  · rw [extendPage, extendPage, harg]
    exact h.bind
  · exact .refl

theorem dispatch_kept (rules : c.rules ⊆ c'.rules) (schema : c.schema = c'.schema)
    (root : c.root = c'.root) {below below' : Unit → Except CompileError Context}
    (h : Kept (below ()) (below' ())) : Kept (c.dispatch e below) (c'.dispatch e below') := by
  unfold dispatch
  cases hfind : c.findRule? e with
  | none => exact .refused
  | some rule =>
      rcases findRule?_eq_some.1 hfind with ⟨hmem, accepted⟩
      rw [findRule?_eq_some.2 ⟨rules hmem, accepted⟩]
      exact extend_kept rule schema root h

/-- With more rules, a chain that was not refused builds the same context or fails in the same way. -/
theorem build_kept (rules : c.rules ⊆ c'.rules) (schema : c.schema = c'.schema)
    (root : c.root = c'.root) (e : Expr) : Kept (c.build e) (c'.build e) := by
  induction e using chain_induction with
  | link e link call ih =>
      rw [build_of_link call, build_of_link call]
      exact dispatch_kept rules schema root ih
  | other e noCall =>
      rw [build_of_noLink noCall, build_of_noLink noCall]
      exact dispatch_kept rules schema root .refl

/-- With more rules, a template that was not refused compiles to the same query or fails in the same
way. -/
theorem query_monotone (rules : c.rules ⊆ c'.rules) (schema : c.schema = c'.schema)
    (root : c.root = c'.root) : Kept c.query c'.query := by
  rw [query, query, root]
  exact (build_kept rules schema root c'.root).bind

/-- What one registry compiles, another one compiles to the same query, unless it refuses the template. -/
theorem query_eq_or_refused {rules : List Rule} {schema : Schema} {t : Expr} {query : Query}
    (h : (⟨rules, schema, t⟩ : Compiler).query = .ok query) (rules' : List Rule) :
    (⟨rules', schema, t⟩ : Compiler).query = .ok query ∨
      ∃ link, (⟨rules', schema, t⟩ : Compiler).query = .error (.unacceptedLink link) := by
  -- Both are compared with the registry that holds the rules of both.
  let both : Compiler := ⟨rules ++ rules', schema, t⟩
  have kept : Kept (⟨rules, schema, t⟩ : Compiler).query both.query :=
    query_monotone (List.subset_append_left ..) rfl rfl
  have kept' : Kept (⟨rules', schema, t⟩ : Compiler).query both.query :=
    query_monotone (List.subset_append_right ..) rfl rfl
  rw [h] at kept
  rw [kept.eq_ok] at kept'
  cases hquery : (⟨rules', schema, t⟩ : Compiler).query with
  | error e =>
      rw [hquery] at kept'
      cases kept' with
      | refused => exact .inr ⟨_, rfl⟩
  | ok query' =>
      rw [hquery] at kept'
      exact .inl kept'.eq_ok.symm

end Compiler

end Compile
end QueryPlan
