import QueryPlan.Proofs.Compile.Registry
import QueryPlan.Proofs.Compile.Slots

/-!
# Priority — the order of a registry has no consequence

A link is handed to the first rule that accepts it, and the rule hands the link's source back to the
registry.  Since no two rules accept the same link, what is first makes no difference:

* `findRule?_eq_of_same_rules` — registries that hold the same rules find the same rule for a link,
  however often and in whatever order they hold them;
* `build_eq_of_same_rules` — they build the same context from a chain, by induction along it;
* `outcomes_of_registries` — they compile a template to the same plan or fail in the same way, and with
  more rules the outcome is the same unless it was that some link had no rule.
-/

namespace QueryPlan
namespace Compile

open Sql (Context)

namespace Compiler

variable {c c' : Compiler}

theorem findRule?_eq_of_same_rules (rules : ∀ rule, rule ∈ c.rules ↔ rule ∈ c'.rules) (e : Expr) :
    c.findRule? e = c'.findRule? e := by
  apply Option.ext
  intro rule
  rw [findRule?_eq_some, findRule?_eq_some, rules]

/-- A rule does not know what other rules its registry holds. -/
theorem extend_eq_of_same_schema (rule : Rule) (e : Expr) (schema : c.schema = c'.schema)
    (root : c.root = c'.root) (below : Unit → Except CompileError Context) :
    c.extend rule e below = c'.extend rule e below := by
  cases c with
  | mk rules s r =>
      cases c' with
      | mk rules' s' r' =>
          cases schema
          cases root
          rfl

theorem dispatch_eq_of_same_rules (rules : ∀ rule, rule ∈ c.rules ↔ rule ∈ c'.rules)
    (schema : c.schema = c'.schema) (root : c.root = c'.root) (e : Expr)
    (below : Unit → Except CompileError Context) : c.dispatch e below = c'.dispatch e below := by
  unfold dispatch
  rw [findRule?_eq_of_same_rules rules e]
  cases c'.findRule? e with
  | none => rfl
  | some rule => exact extend_eq_of_same_schema rule e schema root below

theorem build_eq_of_same_rules (rules : ∀ rule, rule ∈ c.rules ↔ rule ∈ c'.rules)
    (schema : c.schema = c'.schema) (root : c.root = c'.root) (e : Expr) : c.build e = c'.build e := by
  -- The registry is asked again at each link, so the claim is for everything below a link as well.
  induction e using chain_induction with
  | link e link call ih =>
      rw [build_of_link call, build_of_link call, ih]
      exact dispatch_eq_of_same_rules rules schema root e _
  | other e noCall =>
      rw [build_of_noLink noCall, build_of_noLink noCall]
      exact dispatch_eq_of_same_rules rules schema root e _

theorem query_eq_of_same_rules (rules : ∀ rule, rule ∈ c.rules ↔ rule ∈ c'.rules)
    (schema : c.schema = c'.schema) (root : c.root = c'.root) : c.query = c'.query := by
  rw [query, query, root, build_eq_of_same_rules rules schema root]

end Compiler

/-! ## Outcomes -/

/-- A kept outcome is the second one as well, provided that it is no refusal of a link. -/
theorem Kept.eq_of_ne_refused {α : Type} {first second : Except CompileError α} (h : Kept first second)
    (notRefused : ∀ link, first ≠ .error (.unacceptedLink link)) : second = first := by
  cases h with
  | refl => rfl
  | refused => exact absurd rfl (notRefused _)

/-- With more rules, a template that was not refused compiles to the same plan or fails in the same way. -/
theorem compile_kept (serial : Nat) {rules rules' : List Rule} (more : rules ⊆ rules')
    (schema : Schema) (t : Expr) :
    Kept (Plan.compile serial rules schema t) (Plan.compile serial rules' schema t) := by
  let c : Compiler := ⟨rules, schema, t⟩
  let c' : Compiler := ⟨rules', schema, t⟩
  have queries : Kept c.query c'.query := Compiler.query_monotone more rfl rfl
  exact queries.bind

/-- What a template compiles to depends on which rules a registry holds, and neither on their order nor on
how often it holds them.  A registry with more rules gives every outcome of one with fewer, apart from
the refusal of a link that the smaller one has no rule for. -/
theorem outcomes_of_registries (serial : Nat) (rules rules' : List Rule) (schema : Schema)
    (t : Expr) :
    ((∀ rule, rule ∈ rules ↔ rule ∈ rules') →
      Plan.compile serial rules schema t = Plan.compile serial rules' schema t) ∧
    (rules ⊆ rules' → ∀ outcome, Plan.compile serial rules schema t = outcome →
      (∀ link, outcome ≠ .error (.unacceptedLink link)) →
        Plan.compile serial rules' schema t = outcome) := by
  constructor
  · intro same
    have queries : (⟨rules, schema, t⟩ : Compiler).query = (⟨rules', schema, t⟩ : Compiler).query :=
      Compiler.query_eq_of_same_rules same rfl rfl
    simp only [Plan.compile, queries]
  · rintro more outcome rfl notRefused
    exact (compile_kept serial more schema t).eq_of_ne_refused notRefused

/-- Three rules are enough for the namesakes, in any order; two of them are not. -/
theorem namesakes_outcomes :
    let t := Sample.namesakes 30 (.empty 0)
    let outcome (rules : List Rule) := Plan.compile 0 rules Sample.schema t
    (∀ rule, rule ∈ [Rule.page, .table, .filter] ↔ rule ∈ [Rule.table, .filter, .filter, .page]) ∧
      (outcome [.page, .table, .filter]).isOk = true ∧
      (outcome [.page, .table]).isOk = false ∧
      outcome [.page, .table, .filter] = outcome [.table, .filter, .filter, .page] ∧
      outcome Rule.all = outcome [.page, .table, .filter] := by
  intro t outcome
  have same : ∀ rule, rule ∈ [Rule.page, .table, .filter] ↔
      rule ∈ [Rule.table, .filter, .filter, .page] := by
    intro rule
    cases rule <;> decide
  have compiles : (outcome [.page, .table, .filter]).isOk = true := by decide +kernel
  refine ⟨same, compiles, by decide +kernel, ?_, ?_⟩
  · exact (outcomes_of_registries 0 _ _ Sample.schema t).1 same
  · refine (outcomes_of_registries 0 _ _ Sample.schema t).2 (by decide) _ rfl ?_
    intro link refused
    rw [show outcome [.page, .table, .filter] = .error (.unacceptedLink link) from refused] at compiles
    cases compiles

end Compile
end QueryPlan
