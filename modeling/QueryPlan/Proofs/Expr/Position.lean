import QueryPlan.Expr.Path

/-!
# Position — nodes and the paths that lead to them

A path is resolved one child index at a time.  This module collects what the compiler relies on:

* a path continues where its first part ends (`resolve?_append`);
* the links of a chain stand at the paths `0.0…0`, and the walk along first children finds each of
  them there although nodes are compared as objects (`spinePath?_of_resolve?`);
* the body of a quoted lambda stands one step below each quote and one below the lambda
  (`resolve?_body`);
* a property holds of every node of a template exactly when it holds of the node itself and of
  everything below its children (`everywhere_iff`).
-/

namespace QueryPlan
namespace Expr

/-- A property that passes from the children of a node to the node holds of every node. -/
theorem inductionOnChildren {motive : Expr → Prop}
    (step : ∀ e, (∀ c ∈ e.children, motive c) → motive e) (e : Expr) : motive e :=
  step e fun c _ => inductionOnChildren step c
termination_by sizeOf e
decreasing_by
  rename_i h
  exact sizeOf_lt_of_mem_children h

/-! ## Resolving paths -/

@[simp] theorem resolve?_nil (root : Expr) : root.resolve? [] = some root := by
  rw [resolve?]

theorem resolve?_cons (root : Expr) (index : Nat) (rest : Path) :
    root.resolve? (index :: rest) = root.children[index]?.bind (·.resolve? rest) := by
  rw [resolve?]
  cases root.children[index]? <;> rfl

theorem resolve?_append (root : Expr) (p q : Path) :
    root.resolve? (p ++ q) = (root.resolve? p).bind (·.resolve? q) := by
  -- The root changes with every step, so the claim is for all roots.
  induction p generalizing root with
  | nil => simp
  | cons index rest ih =>
      rw [List.cons_append, resolve?_cons, resolve?_cons]
      cases root.children[index]? with
      | none => rfl
      | some child => exact ih child

/-- One more step goes from a node to one of its children. -/
theorem resolve?_child {root e c : Expr} {path : Path} {index : Nat}
    (h : root.resolve? path = some e) (hc : e.children[index]? = some c) :
    root.resolve? (path ++ [index]) = some c := by
  rw [resolve?_append, h]
  simp [resolve?_cons, hc]

/-- A path that leads into the node at another path continues that path. -/
theorem resolve?_trans {root e c : Expr} {p q : Path}
    (h : root.resolve? p = some e) (hc : e.resolve? q = some c) :
    root.resolve? (p ++ q) = some c := by
  rw [resolve?_append, h]
  exact hc

/-- A node below another one is smaller. -/
theorem sizeOf_lt_of_resolve? {root e : Expr} {index : Nat} {rest : Path}
    (h : root.resolve? (index :: rest) = some e) : sizeOf e < sizeOf root := by
  induction rest generalizing root index with
  | nil =>
      rw [resolve?_cons] at h
      rcases Option.bind_eq_some_iff.1 h with ⟨child, hchild, hrest⟩
      cases (resolve?_nil child).symm.trans hrest
      exact sizeOf_lt_of_mem_children (List.mem_of_getElem? hchild)
  | cons next rest ih =>
      rw [resolve?_cons] at h
      rcases Option.bind_eq_some_iff.1 h with ⟨child, hchild, hrest⟩
      have hbelow : sizeOf e < sizeOf child := ih hrest
      have hhere : sizeOf child < sizeOf root :=
        sizeOf_lt_of_mem_children (List.mem_of_getElem? hchild)
      exact Nat.lt_trans hbelow hhere

/-! ## The spine -/

/-- The walk along first children finds the node at depth `k` at the path of `k` zeros: nodes above
it are larger, so none of them is taken for it. -/
theorem spinePath?_of_resolve? {root e : Expr} (k : Nat)
    (h : root.resolve? (List.replicate k 0) = some e) :
    root.spinePath? e = some (List.replicate k 0) := by
  induction k generalizing root with
  | zero =>
      cases (resolve?_nil root).symm.trans h
      rw [spinePath?, if_pos rfl]
      rfl
  | succ k ih =>
      rw [List.replicate_succ] at h
      -- The node found lies strictly below, so the walk does not stop at the root.
      have hne : root ≠ e := by
        intro heq
        exact absurd (sizeOf_lt_of_resolve? h) (heq ▸ Nat.lt_irrefl _)
      rw [resolve?_cons] at h
      rcases Option.bind_eq_some_iff.1 h with ⟨child, hchild, hrest⟩
      rw [spinePath?, if_neg hne]
      split
      · next hnil => simp [hnil] at hchild
      · next first others hcons =>
          -- The spine goes on with the same child that the path of zeros goes to.
          have hfirst : first = child := by simpa [hcons] using hchild
          subst hfirst
          rw [ih hrest]
          rfl

/-! ## Quoted lambdas -/

theorem resolve?_unquoted (e : Expr) :
    e.resolve? (List.replicate e.quoteDepth 0) = some e.unquoted := by
  induction e using unquoted.induct with
  | case1 id ty method operand ih =>
      rw [unquoted, quoteDepth, List.replicate_succ, resolve?_cons]
      exact ih
  | case2 e h =>
      rw [unquoted, quoteDepth]
      · rfl
      · exact h
      · exact h

/-- The body of a lambda stands below its quotes. -/
theorem resolve?_body {e body : Expr} {params : List Param}
    (h : e.asLambda? = some (params, body)) :
    e.resolve? (List.replicate (e.quoteDepth + 1) 0) = some body := by
  rw [asLambda?] at h
  split at h
  · next ps b hnode =>
      obtain ⟨rfl, rfl⟩ : ps = params ∧ b = body := by simpa using h
      -- Below the quotes stands the lambda, whose only child is its body.
      have hchild : e.unquoted.children[0]? = some b := by
        rw [children, hnode]
        rfl
      rw [List.replicate_succ', resolve?_child (resolve?_unquoted e) hchild]
  · cases h

/-! ## Properties of every node -/

/-- A property of a node and of every node below it. -/
def Everywhere (P : Expr → Prop) (root : Expr) : Prop :=
  ∀ path e, root.resolve? path = some e → P e

section Everywhere

variable {P : Expr → Prop} {root e : Expr}

theorem Everywhere.of_resolve? {path : Path} (h : root.Everywhere P)
    (hpath : root.resolve? path = some e) : e.Everywhere P := by
  intro rest x hx
  exact h (path ++ rest) x (resolve?_trans hpath hx)

theorem Everywhere.here (h : root.Everywhere P) : P root :=
  h [] root root.resolve?_nil

theorem everywhere_iff : root.Everywhere P ↔ P root ∧ ∀ c ∈ root.children, c.Everywhere P := by
  constructor
  · intro h
    refine ⟨h.here, ?_⟩
    intro c hc
    rcases List.getElem?_of_mem hc with ⟨index, hindex⟩
    exact h.of_resolve? (resolve?_child root.resolve?_nil hindex)
  · rintro ⟨here, below⟩ path e he
    cases path with
    | nil =>
        cases (resolve?_nil root).symm.trans he
        exact here
    | cons index rest =>
        rw [resolve?_cons] at he
        rcases Option.bind_eq_some_iff.1 he with ⟨c, hc, hrest⟩
        exact below c (List.mem_of_getElem? hc) rest e hrest

theorem Everywhere.of_mem_children {c : Expr} (h : root.Everywhere P) (hc : c ∈ root.children) :
    c.Everywhere P :=
  (everywhere_iff.1 h).2 c hc

/-- The form in which the property is checked on a given template, down to its leaves. -/
theorem everywhere_node {id : Nat} {ty : Ty} {n : Node Expr} :
    (⟨id, ty, n⟩ : Expr).Everywhere P ↔
      P ⟨id, ty, n⟩ ∧ ∀ c ∈ n.children, c.Everywhere P :=
  everywhere_iff

end Everywhere

end Expr
end QueryPlan
