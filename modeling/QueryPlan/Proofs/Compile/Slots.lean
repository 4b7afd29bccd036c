import QueryPlan.Proofs.Compile.Derivation

/-!
# Slots — parameter slots name exactly what they stand for

The slots of a compiled template are the positions that its chain binds (`chainSlots`).  These
positions increase from slot to slot, which makes them distinct, and each of them leads to the literal
or capture environment whose value is bound (`Names`).

Compilation finds every link it needs a position for: no step fails because a link is not part of the
template.
-/

namespace QueryPlan

/-- Positions below a child come before positions below a later one. -/
theorem Path.lt_of_siblings {path p q : Path} {i j : Nat} (hp : path ++ [i] <+: p)
    (hq : path ++ [j] <+: q) (h : i < j) : p < q := by
  rcases hp with ⟨p', rfl⟩
  rcases hq with ⟨q', rfl⟩
  rw [List.append_assoc, List.append_assoc]
  exact List.append_left_lt (List.cons_lt_cons_iff.2 (.inl h))

namespace Compile

open Sql (Context Slot)

/-! ## Order -/

/-- Slots at or below a path, by increasing position. -/
structure Ordered (path : Path) (slots : List Slot) : Prop where
  below : ∀ slot ∈ slots, path <+: slot.path
  increasing : slots.Pairwise (·.path < ·.path)

/-- Slots below the children of a node from an index on, by increasing position. -/
structure OrderedFrom (path : Path) (index : Nat) (slots : List Slot) : Prop where
  below : ∀ slot ∈ slots, ∃ child, index ≤ child ∧ path ++ [child] <+: slot.path
  increasing : slots.Pairwise (·.path < ·.path)

theorem Ordered.nil {path : Path} : Ordered path [] :=
  ⟨by simp, .nil⟩

theorem Ordered.single {path : Path} {slot : Slot} (h : path <+: slot.path) :
    Ordered path [slot] :=
  ⟨by simpa using h, List.pairwise_singleton _ _⟩

/-- Slots below a longer path are below every part of it. -/
theorem Ordered.shorten {path rest : Path} {slots : List Slot} (h : Ordered (path ++ rest) slots) :
    Ordered path slots :=
  ⟨fun slot hslot => (List.prefix_append path rest).trans (h.below slot hslot), h.increasing⟩

namespace OrderedFrom

theorem nil {path : Path} {index : Nat} : OrderedFrom path index [] :=
  ⟨by simp, .nil⟩

/-- The slots of a child come before those of later children. -/
theorem cons {path : Path} {index : Nat} {first others : List Slot}
    (hfirst : Ordered (path ++ [index]) first) (hothers : OrderedFrom path (index + 1) others) :
    OrderedFrom path index (first ++ others) := by
  refine ⟨?_, List.pairwise_append.2 ⟨hfirst.increasing, hothers.increasing, ?_⟩⟩
  · intro slot hslot
    rcases List.mem_append.1 hslot with h | h
    · exact ⟨index, Nat.le_refl index, hfirst.below slot h⟩
    · rcases hothers.below slot h with ⟨child, hle, hbelow⟩
      exact ⟨child, Nat.le_of_succ_le hle, hbelow⟩
  · intro a ha b hb
    rcases hothers.below b hb with ⟨child, hle, hbelow⟩
    exact Path.lt_of_siblings (hfirst.below a ha) hbelow hle

theorem ordered {path : Path} {index : Nat} {slots : List Slot} (h : OrderedFrom path index slots) :
    Ordered path slots := by
  refine ⟨fun slot hslot => ?_, h.increasing⟩
  rcases h.below slot hslot with ⟨child, -, hbelow⟩
  exact (List.prefix_append path [child]).trans hbelow

end OrderedFrom

theorem boundSlots_ordered (path : Path) (e : Expr) : Ordered path (boundSlots path e) := by
  induction path, e using boundSlots.induct with
  | case1 path id ty m id' ty' env =>
      rw [boundSlots]
      exact .single (List.prefix_append path [0])
  | case2 path id ty value bound =>
      rw [boundSlots, if_pos bound]
      exact .single (List.prefix_refl path)
  | case3 path id ty value notBound =>
      rw [boundSlots, if_neg notBound]
      exact .nil
  | case4 path id ty op method left right conversion ihl ihr =>
      have h := OrderedFrom.cons ihl (.cons ihr .nil)
      rw [List.append_nil] at h
      rw [boundSlots]
      exact h.ordered
  | case5 path id ty op method operand ih =>
      rw [boundSlots]
      exact ih.shorten
  | case6 path id ty test ifTrue ifFalse iht iha ihb =>
      have h := OrderedFrom.cons iht (.cons iha (.cons ihb .nil))
      rw [List.append_nil, ← List.append_assoc] at h
      rw [boundSlots]
      exact h.ordered
  | case7 path e noCapture noConstant noBinary noUnary noConditional =>
      rw [boundSlots]
      · exact .nil
      all_goals assumption

theorem valueSlots_ordered (path : Path) (index : Nat) (values : List Expr) :
    OrderedFrom path index (valueSlots path index values) := by
  induction values generalizing index with
  | nil => exact .nil
  | cons e rest ih => exact .cons (boundSlots_ordered _ e) (ih (index + 1))

theorem projectionSlots_ordered (path : Path) (body : Expr) :
    Ordered path (projectionSlots path body) := by
  unfold projectionSlots
  split
  · exact (valueSlots_ordered ..).ordered
  · exact (valueSlots_ordered ..).ordered
  · exact boundSlots_ordered path body

theorem keySlots_ordered (path : Path) (body : Expr) : Ordered path (keySlots path body) := by
  unfold keySlots
  split
  · exact (valueSlots_ordered ..).ordered
  · exact (valueSlots_ordered ..).ordered
  · exact boundSlots_ordered path body

theorem linkSlots_ordered (path : Path) (link : Link) : Ordered path (link.slots path) := by
  unfold Link.slots
  split
  · exact boundSlots_ordered path _
  · exact boundSlots_ordered path _
  · exact .nil
  · exact (boundSlots_ordered ..).shorten
  · split
    · exact .nil
    · exact (projectionSlots_ordered ..).shorten
  · exact (keySlots_ordered ..).shorten

/-- The positions that a chain binds increase from the innermost link outwards and from left to
right. -/
theorem chainSlots_ordered (path : Path) (e : Expr) : Ordered path (chainSlots path e) := by
  induction e using chain_induction generalizing path with
  | link e link call ih =>
      -- The source is the first child and the argument the second one.
      have h := OrderedFrom.cons (ih (path ++ [0])) (.cons (linkSlots_ordered _ link) .nil)
      rw [List.append_nil] at h
      rw [chainSlots_of_link path call]
      exact h.ordered
  | other e noCall =>
      rw [chainSlots_of_noLink path noCall]
      exact .nil

/-- Increasing positions are distinct. -/
theorem Ordered.nodup {path : Path} {slots : List Slot} (h : Ordered path slots) :
    (slots.map (·.path)).Nodup := by
  refine List.pairwise_map.2 (h.increasing.imp ?_)
  intro a b hlt heq
  exact List.lt_irrefl _ (heq ▸ hlt)

/-! ## Names -/

/-- What the slot of a template stands for. -/
inductive Names (t : Expr) : Slot → Prop where
  /-- A scalar literal of a type that is not inlined. -/
  | literal {path : Path} {id : Nat} {ty : Ty} {value : Value}
      (found : t.resolve? path = some ⟨id, ty, .constant value⟩)
      (notInlined : ty.isInlined = false) (scalar : value.isScalar = true) :
      Names t ⟨path, .literal⟩
  /-- A capture environment, the receiver of a member access that names the variable. -/
  | captured {path : Path} {id id' : Nat} {ty ty' : Ty} {m : Member} {env : Env Value}
      (access : t.resolve? path =
        some ⟨id, ty, .member m (some ⟨id', ty', .constant (.closure env)⟩)⟩)
      (found : t.resolve? (path ++ [0]) = some ⟨id', ty', .constant (.closure env)⟩) :
      Names t ⟨path ++ [0], .captured m.name⟩

section Names

variable {t e : Expr} {path : Path} {slot : Slot}

theorem names_of_mem_boundSlots (position : t.resolve? path = some e)
    (h : slot ∈ boundSlots path e) : Names t slot := by
  induction path, e using boundSlots.induct with
  | case1 path id ty m id' ty' env =>
      rw [boundSlots, List.mem_singleton] at h
      subst h
      exact .captured position (Expr.resolve?_child position rfl)
  | case2 path id ty value bound =>
      rw [boundSlots, if_pos bound, List.mem_singleton] at h
      subst h
      rw [Bool.and_eq_true, Bool.not_eq_true'] at bound
      exact .literal position bound.1 bound.2
  | case3 path id ty value notBound =>
      rw [boundSlots, if_neg notBound] at h
      cases h
  | case4 path id ty op method left right conversion ihl ihr =>
      rw [boundSlots, List.mem_append] at h
      rcases h with h | h
      · exact ihl (Expr.resolve?_child position rfl) h
      · exact ihr (Expr.resolve?_child position rfl) h
  | case5 path id ty op method operand ih =>
      rw [boundSlots] at h
      exact ih (Expr.resolve?_child position rfl) h
  | case6 path id ty test ifTrue ifFalse iht iha ihb =>
      rw [boundSlots, List.mem_append, List.mem_append] at h
      rcases h with (h | h) | h
      · exact iht (Expr.resolve?_child position rfl) h
      · exact iha (Expr.resolve?_child position rfl) h
      · exact ihb (Expr.resolve?_child position rfl) h
  | case7 path e noCapture noConstant noBinary noUnary noConditional =>
      rw [boundSlots] at h
      · cases h
      all_goals assumption

/-- The first of some consecutive children is the child at their index. -/
theorem cons_prefix_children {index : Nat} {value : Expr} {rest : List Expr}
    (children : value :: rest <+: e.children.drop index) :
    e.children[index]? = some value ∧ rest <+: e.children.drop (index + 1) := by
  rcases children with ⟨others, hothers⟩
  constructor
  · rw [← Nat.add_zero index, ← List.getElem?_drop, ← hothers]
    rfl
  · rw [← List.drop_drop, ← hothers]
    exact List.prefix_append rest others

/-- The values of consecutive children are found at their positions. -/
theorem names_of_mem_valueSlots {index : Nat} {values : List Expr}
    (position : t.resolve? path = some e) (children : values <+: e.children.drop index)
    (h : slot ∈ valueSlots path index values) : Names t slot := by
  induction values generalizing index with
  | nil => cases h
  | cons value rest ih =>
      rcases cons_prefix_children children with ⟨hvalue, hrest⟩
      rw [valueSlots, List.mem_append] at h
      rcases h with h | h
      · exact names_of_mem_boundSlots (Expr.resolve?_child position hvalue) h
      · exact ih hrest h

theorem assignedValues_children (construction : Construction Expr) (bindings : List (Binding Expr)) :
    ((assignments? bindings).getD []).map (·.2) <+:
      (construction.args ++ Binding.childrenOf bindings).drop construction.args.length := by
  rw [List.drop_left]
  cases hfields : assignments? bindings with
  | none => exact List.nil_prefix
  | some fields =>
      rw [childrenOf_of_assignments? hfields]
      exact List.prefix_refl _

theorem names_of_mem_projectionSlots (position : t.resolve? path = some e)
    (h : slot ∈ projectionSlots path e) : Names t slot := by
  rcases e with ⟨id, ty, node⟩
  unfold projectionSlots at h
  cases node with
  | construct construction =>
      exact names_of_mem_valueSlots position (List.take_prefix _ _) h
  | memberInit construction bindings =>
      exact names_of_mem_valueSlots position (assignedValues_children construction bindings) h
  | _ => exact names_of_mem_boundSlots position h

theorem names_of_mem_keySlots (position : t.resolve? path = some e)
    (h : slot ∈ keySlots path e) : Names t slot := by
  rcases e with ⟨id, ty, node⟩
  unfold keySlots at h
  cases node with
  | construct construction =>
      exact names_of_mem_valueSlots position (List.prefix_refl _) h
  | memberInit construction bindings =>
      exact names_of_mem_valueSlots position (assignedValues_children construction bindings) h
  | _ => exact names_of_mem_boundSlots position h

/-- The body of a selector stands below its quotes. -/
theorem resolve?_selectorBody {argument body : Expr} {param : Param}
    (position : t.resolve? path = some argument)
    (selector : asSelector? argument = some (param, body)) :
    t.resolve? (bodyPath argument path) = some body := by
  unfold asSelector? at selector
  split at selector
  · next p b hlambda =>
      cases selector
      exact Expr.resolve?_trans position (Expr.resolve?_body hlambda)
  · cases selector

theorem names_of_mem_linkSlots {link : Link} (position : t.resolve? path = some link.argument)
    (h : slot ∈ link.slots path) : Names t slot := by
  unfold Link.slots at h
  split at h
  · exact names_of_mem_boundSlots position h
  · exact names_of_mem_boundSlots position h
  · cases h
  · next selector => exact names_of_mem_boundSlots (resolve?_selectorBody position selector) h
  · next selector =>
      split at h
      · cases h
      · exact names_of_mem_projectionSlots (resolve?_selectorBody position selector) h
  · exact names_of_mem_keySlots (resolve?_selectorBody position ‹_›) h

/-- Every position that a chain binds leads to what is bound there. -/
theorem names_of_mem_chainSlots (position : t.resolve? path = some e)
    (h : slot ∈ chainSlots path e) : Names t slot := by
  induction e using chain_induction generalizing path with
  | link e link call ih =>
      rw [chainSlots_of_link path call, List.mem_append] at h
      rcases h with h | h
      · exact ih (Link.resolve?_source call position) h
      · exact names_of_mem_linkSlots (Link.resolve?_argument call position) h
  | other e noCall =>
      rw [chainSlots_of_noLink path noCall] at h
      cases h

end Names

/-! ## Links of the template -/

/-- A fallible step that does not fail for a link that is no part of the template. -/
structure NeverDetached {α : Type} (result : Except CompileError α) : Prop where
  ne_error : ∀ ty, result ≠ .error (.detachedLink ty)

/-- A conversion that does not, whatever the slots. -/
structure Conversion.NeverDetached {α : Type} (conversion : Conversion α) : Prop where
  run : ∀ slots, Compile.NeverDetached (conversion.run slots)

namespace NeverDetached

variable {α β : Type}

theorem ok (a : α) : NeverDetached (.ok a) :=
  ⟨by simp⟩

theorem error {error : CompileError} (h : ∀ ty, error ≠ .detachedLink ty) :
    NeverDetached (.error error : Except CompileError α) :=
  ⟨by simpa using h⟩

theorem bind {m : Except CompileError α} {f : α → Except CompileError β} (hm : NeverDetached m)
    (hf : ∀ a, m = .ok a → NeverDetached (f a)) : NeverDetached (m >>= f) := by
  cases m with
  | error e => exact error fun ty he => hm.ne_error ty (congrArg _ he)
  | ok a => exact hf a rfl

theorem converting {ctx : Context} {conversion : Conversion α} (h : conversion.NeverDetached) :
    NeverDetached (Compile.converting ctx conversion) :=
  (h.run ctx.slots).bind fun _ _ => .ok _

end NeverDetached

namespace Conversion.NeverDetached

variable {α β : Type}

theorem pure (a : α) : NeverDetached (Pure.pure a : Conversion α) :=
  ⟨fun _ => .ok _⟩

theorem throw {error : CompileError} (h : ∀ ty, error ≠ .detachedLink ty) :
    NeverDetached (throw error : Conversion α) :=
  ⟨fun _ => .error h⟩

theorem bindSlot (path : Path) (source : Sql.SlotSource) :
    NeverDetached (Compile.bindSlot path source) :=
  ⟨fun _ => .ok _⟩

theorem bind {m : Conversion α} {f : α → Conversion β} (hm : m.NeverDetached)
    (hf : ∀ a, (f a).NeverDetached) : (m >>= f).NeverDetached := by
  constructor
  intro slots
  rw [StateT.run_bind]
  exact (hm.run slots).bind fun a _ => (hf a.1).run a.2

theorem convert (frame : Frame) (path : Path) (e : Expr) :
    (Compile.convert frame path e).NeverDetached := by
  fun_induction Compile.convert frame path e with
  | case1 path id ty name =>
      unfold convertElement
      split
      · split
        · exact pure _
        · exact throw (by simp)
      · exact throw (by simp)
  | case2 path id ty m object =>
      unfold convertMember
      split
      · split
        · split
          · exact pure _
          · exact throw (by simp)
        · exact throw (by simp)
      · exact bindSlot _ _
      · exact throw (by simp)
  | case3 path id ty value =>
      unfold convertConstant
      split
      · exact pure _
      · split
        · exact bindSlot _ _
        · exact throw (by simp)
  | case4 path id ty op method left right conversion negated null test ih =>
      exact ih.bind fun _ => pure _
  | case5 path id ty op method left right conversion negated null notNull test ih =>
      exact ih.bind fun _ => pure _
  | case6 path id ty op method left right conversion sqlOp operator noRight noLeft ihl ihr =>
      exact ihl.bind fun _ => ihr.bind fun _ => pure _
  | case7 => exact throw (by simp)
  | case8 path id ty method operand ih => exact ih.bind fun _ => pure _
  | case9 path id ty method operand ih => exact ih.bind fun _ => pure _
  | case10 path id ty method operand ih
  | case11 path id ty method operand ih
  | case12 path id ty method operand ih
  | case13 path id ty method operand ih => exact ih
  | case14 => exact throw (by simp)
  | case15 path id ty test ifTrue ifFalse iht iha ihb =>
      exact iht.bind fun _ => iha.bind fun _ => ihb.bind fun _ => pure _
  | case16 => exact throw (by simp)

theorem convertValue (frame : Frame) (path : Path) (e : Expr) :
    (Compile.convertValue frame path e).NeverDetached :=
  (convert frame path e).bind fun _ => pure _

theorem convertValues (frame : Frame) (path : Path) (index : Nat) (values : List Expr) :
    (Compile.convertValues frame path index values).NeverDetached := by
  induction values generalizing index with
  | nil => exact pure _
  | cons e rest ih => exact (convertValue ..).bind fun _ => (ih (index + 1)).bind fun _ => pure _

theorem convertAssigned (frame : Frame) (path : Path) (index : Nat)
    (bindings : List (Binding Expr)) :
    (Compile.convertAssigned frame path index bindings).NeverDetached := by
  fun_induction Compile.convertAssigned frame path index bindings with
  | case1 => exact pure _
  | case2 index m value rest ih => exact (convertValue ..).bind fun _ => ih.bind fun _ => pure _
  | case3 => exact throw (by simp)

theorem projection (frame : Frame) (path : Path) (body : Expr) :
    (Compiler.projection frame path body).NeverDetached := by
  unfold Compiler.projection
  split
  · split
    · exact (convertValue ..).bind fun _ => pure _
    · exact (convertValues ..).bind fun _ => pure _
  · exact (convertAssigned ..).bind fun _ => pure _
  · exact (convertValue ..).bind fun _ => pure _

theorem keys (frame : Frame) (path : Path) (body : Expr) :
    (Compiler.keys frame path body).NeverDetached := by
  unfold Compiler.keys
  split
  · exact convertValues ..
  · exact (convertAssigned ..).bind fun _ => pure _
  · exact (convertValue ..).bind fun _ => pure _

end Conversion.NeverDetached

namespace Compiler

variable {c : Compiler} {e : Expr} {path : Path} {below : Unit → Except CompileError Context}

theorem neverDetached_argPath (spine : c.root.spinePath? e = some path) :
    NeverDetached (c.argPath e 0) := by
  rw [argPath_of_spine spine]
  exact .ok _

theorem neverDetached_startTable : NeverDetached (c.startTable e) := by
  unfold startTable
  split
  · split
    · exact .ok _
    · exact .error (by simp)
  · exact .error (by simp)

theorem neverDetached_addPredicate (ctx : Context) (argument : Expr) (path : Path) :
    NeverDetached (addPredicate ctx argument path) := by
  unfold addPredicate
  split
  · exact .error (by simp)
  · exact (NeverDetached.converting (.convert ..)).bind fun _ _ => .ok _

theorem neverDetached_project (spine : c.root.spinePath? e = some path) (ctx : Context)
    (argument : Expr) (param : Param) (body : Expr) :
    NeverDetached (c.project ctx e argument param body) := by
  unfold project
  split
  · exact .ok _
  · exact (neverDetached_argPath spine).bind fun _ _ =>
      (NeverDetached.converting (.projection ..)).bind fun _ _ => .ok _

theorem neverDetached_checkKey (kind : SortKind) (argument : Expr) :
    NeverDetached (checkKey kind argument) := by
  unfold checkKey
  split
  · split
    · exact .error (by simp)
    · exact .ok _
  · exact .ok _

theorem neverDetached_addSort (ctx : Context) (kind : SortKind) (argument : Expr) (path : Path) :
    NeverDetached (addSort ctx kind argument path) := by
  unfold addSort
  split
  · exact .error (by simp)
  · exact (NeverDetached.converting (.keys ..)).bind fun _ _ => .ok _

theorem neverDetached_addBound (ctx : Context) (isTake : Bool) (argument : Expr) (path : Path) :
    NeverDetached (addBound ctx isTake argument path) := by
  apply (NeverDetached.converting (.convert ..)).bind
  intro converted _
  rcases converted with ⟨bound, ctx⟩
  cases isTake with
  | false => exact .ok _
  | true => exact .ok _

/-- A rule finds the position of every link on the spine of the template. -/
theorem neverDetached_extend (rule : Rule) (spine : c.root.spinePath? e = some path)
    (hbelow : NeverDetached (below ())) : NeverDetached (c.extend rule e below) := by
  unfold extend
  split
  · exact neverDetached_startTable
  · exact hbelow.bind fun _ _ => (neverDetached_argPath spine).bind fun _ _ =>
      neverDetached_addPredicate ..
  · unfold extendSelect
    split
    · exact .error (by simp)
    · exact hbelow.bind fun _ _ => neverDetached_project spine ..
  · unfold extendSort
    split
    · exact .error (by simp)
    · exact (neverDetached_checkKey ..).bind fun _ _ => hbelow.bind fun _ _ =>
        (neverDetached_argPath spine).bind fun _ _ => neverDetached_addSort ..
  · exact hbelow.bind fun _ _ => (neverDetached_argPath spine).bind fun _ _ =>
      neverDetached_addBound ..
  · exact .error (by simp)

theorem neverDetached_dispatch (spine : c.root.spinePath? e = some path)
    (hbelow : NeverDetached (below ())) : NeverDetached (c.dispatch e below) := by
  unfold dispatch
  split
  · exact neverDetached_extend _ spine hbelow
  · exact .error (by simp)

theorem neverDetached_build (k : Nat) (position : c.root.resolve? (List.replicate k 0) = some e) :
    NeverDetached (c.build e) := by
  have spine := Expr.spinePath?_of_resolve? k position
  induction e using chain_induction generalizing k with
  | link e link call ih =>
      have source := resolve?_source_of_spine k call position
      rw [build_of_link call]
      exact neverDetached_dispatch spine
        (ih (k + 1) source (Expr.spinePath?_of_resolve? (k + 1) source))
  | other e noCall =>
      rw [build_of_noLink noCall]
      exact neverDetached_dispatch spine (.error (by simp))

end Compiler

/-- A compilation with any rules never fails for a detached link.  If it succeeds, the slots are the
positions that the chain binds, innermost link first and from left to right; their paths are distinct
and lead to the literals and capture environments they stand for; and every bound occurrence has
become the parameter whose index is that of its slot. -/
theorem slots_name_bound_positions (rules : List Rule) (schema : Schema) (t : Expr) :
    (∀ ty, (⟨rules, schema, t⟩ : Compiler).query ≠ .error (.detachedLink ty)) ∧
      ∀ query, (⟨rules, schema, t⟩ : Compiler).query = .ok query →
        query.slots = chainSlots [] t ∧
          query.slots.Pairwise (·.path < ·.path) ∧ (query.slots.map (·.path)).Nodup ∧
          (∀ slot ∈ query.slots, Names t slot) ∧
          ∃ ctx, Builds schema query.slots [] t ctx ∧ query = ctx.finish := by
  have root : t.resolve? (List.replicate 0 0) = some t := t.resolve?_nil
  constructor
  · exact ((Compiler.neverDetached_build 0 root).bind fun _ _ => .ok _).ne_error
  · intro query h
    rcases Compiler.query_ok.1 h with ⟨ctx, hctx, rfl⟩
    rcases Compiler.builds_of_build 0 root hctx with ⟨hslots, hbuilds⟩
    have ordered : Ordered [] ctx.slots := hslots ▸ chainSlots_ordered [] t
    refine ⟨hslots, ordered.increasing, ordered.nodup, ?_, ctx, hbuilds, rfl⟩
    intro slot hslot
    exact names_of_mem_chainSlots root (hslots ▸ hslot)

/-! ## A shared literal -/

namespace Sample

/-- People with an age and a name. -/
def person : Model :=
  ⟨"Person", "people", [⟨"age", "age"⟩, ⟨"name", "name"⟩]⟩

/-- The element type of the table of people. -/
def element : Ty :=
  .named "Person"

/-- A schema without overrides. -/
def schema : Schema :=
  ⟨0, "main", none, [], false⟩

/-- People of at least some age whose name is captured, at most as many as the age says: the literal
of the age occurs at two positions. -/
def namesakes (age : Int64) (env : Env Value) : Expr :=
  let people : Expr := ⟨0, .table element, .constant (.table ⟨person, element⟩)⟩
  let x : Expr := ⟨1, element, .parameter "x"⟩
  let limit : Expr := ⟨2, .int64, .constant (.long age)⟩
  let captured : Expr := ⟨3, .environment, .constant (.closure env)⟩
  let ageOf : Expr := ⟨4, .int64, .member ⟨element, "age", .int64⟩ (some x)⟩
  let nameOf : Expr := ⟨5, .text, .member ⟨element, "name", .text⟩ (some x)⟩
  let name : Expr := ⟨6, .text, .member ⟨.environment, "name", .text⟩ (some captured)⟩
  let old : Expr := ⟨7, .bool, .binary .greaterThanOrEqual none ageOf limit none⟩
  let named : Expr := ⟨8, .bool, .binary .equal none nameOf name none⟩
  let both : Expr := ⟨9, .bool, .binary .andAlso none old named none⟩
  let quoted : Expr :=
    ⟨11, .bool, .unary .quote none ⟨10, .bool, .lambda [⟨"x", element⟩] both⟩⟩
  let filtered : Expr :=
    ⟨12, .queryable element, .call Operator.filter.method none [people, quoted]⟩
  ⟨13, .queryable element, .call Operator.take.method none [filtered, limit]⟩

end Sample

/-- The shared literal and the captured variable are found at each of their positions. -/
theorem namesakes_slots_named :
    ∃ query, (⟨Rule.all, Sample.schema, Sample.namesakes 30 (.empty 0)⟩ : Compiler).query =
        .ok query ∧
      query.slots = [⟨[0, 1, 0, 0, 0, 1], .literal⟩, ⟨[0, 1, 0, 0, 1, 1, 0], .captured "name"⟩,
        ⟨[1], .literal⟩] ∧
      ∀ slot ∈ query.slots, Names (Sample.namesakes 30 (.empty 0)) slot := by
  cases hquery : (⟨Rule.all, Sample.schema, Sample.namesakes 30 (.empty 0)⟩ : Compiler).query with
  | error e =>
      have compiles : (⟨Rule.all, Sample.schema, Sample.namesakes 30 (.empty 0)⟩ :
          Compiler).query.isOk = true := by decide +kernel
      simp [hquery, Except.isOk, Except.toBool] at compiles
  | ok query =>
      obtain ⟨hslots, -, -, hnames, -⟩ :=
        (slots_name_bound_positions Rule.all Sample.schema _).2 query hquery
      refine ⟨query, rfl, ?_, hnames⟩
      rw [hslots]
      rfl

end Compile
end QueryPlan
