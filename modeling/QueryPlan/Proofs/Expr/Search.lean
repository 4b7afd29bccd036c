import Mathlib.Data.List.Lex
import QueryPlan.Proofs.Expr.Position

/-!
# Search — the first position of a node

A node may occur at several positions of a template.  `preorder` lists all positions, each node before
what is below it and earlier children first; paths increase along this list, so the order of the list is
the lexicographic order of paths.

A search goes depth first and keeps the path to the node at hand in a buffer.  `locateInto_eq` says what it
amounts to, whatever the buffer held before: the search succeeds if the list has the target, the buffer is
then left with the first path to it, and otherwise as it was.
-/

namespace QueryPlan
namespace Expr

/-! ## Occurrence -/

/-- A node is the root of a template or occurs below one of its children. -/
inductive Contains : Expr → Expr → Prop
  | here (e : Expr) : Contains e e
  | under {root child target : Expr} (isChild : child ∈ root.children)
      (occurs : child.Contains target) : Contains root target

theorem contains_of_resolve? {root target : Expr} {path : Path}
    (h : root.resolve? path = some target) : root.Contains target := by
  induction path generalizing root with
  | nil =>
      cases (resolve?_nil root).symm.trans h
      exact .here _
  | cons index rest ih =>
      rw [resolve?_cons] at h
      rcases Option.bind_eq_some_iff.1 h with ⟨child, hchild, hrest⟩
      exact .under (List.mem_of_getElem? hchild) (ih hrest)

theorem exists_path_of_contains {root target : Expr} (h : root.Contains target) :
    ∃ path, root.resolve? path = some target := by
  induction h with
  | here e => exact ⟨[], resolve?_nil e⟩
  | under isChild _ ih =>
      rcases ih with ⟨rest, hrest⟩
      rcases List.getElem?_of_mem isChild with ⟨index, hindex⟩
      refine ⟨index :: rest, ?_⟩
      rw [resolve?_cons, hindex]
      exact hrest

/-! ## Positions in order -/

/-- A position below a child, seen from its parent. -/
def belowChild (index : Nat) (position : Path × Expr) : Path × Expr :=
  (index :: position.1, position.2)

/-- All positions with their nodes: the node itself, then what is below its children, in child order. -/
def preorder (root : Expr) : List (Path × Expr) :=
  ([], root) :: root.children.attach.zipIdx.flatMap fun (⟨child, _⟩, index) =>
    child.preorder.map (belowChild index)
termination_by sizeOf root
decreasing_by
  rename_i h
  exact sizeOf_lt_of_mem_children h

/-- The positions below children, the first of which has a given index. -/
def preorderFrom (index : Nat) : List Expr → List (Path × Expr)
  | [] => []
  | child :: rest => child.preorder.map (belowChild index) ++ preorderFrom (index + 1) rest

theorem preorderFrom_eq_flatMap (index : Nat) (children : List Expr) :
    preorderFrom index children = (children.zipIdx index).flatMap fun visited =>
      visited.1.preorder.map (belowChild visited.2) := by
  induction children generalizing index with
  | nil => rfl
  | cons child rest ih => rw [preorderFrom, ih, List.zipIdx_cons, List.flatMap_cons]

/-- Indices are those of the children, whether or not these are known to be children. -/
theorem zipIdx_attach (children : List Expr) :
    (children.attach.zipIdx.map fun visited => (visited.1.1, visited.2)) = children.zipIdx :=
  (List.zipIdx_map ..).symm.trans (congrArg List.zipIdx (List.attach_map_subtype_val children))

theorem preorder_eq (root : Expr) :
    root.preorder = ([], root) :: preorderFrom 0 root.children := by
  rw [preorder, preorderFrom_eq_flatMap, ← zipIdx_attach, List.flatMap_map]

section Children

variable {index : Nat} {children : List Expr} {path : Path} {e : Expr}

theorem mem_preorderFrom_iff :
    (path, e) ∈ preorderFrom index children ↔
      ∃ offset rest child, path = (index + offset) :: rest ∧ children[offset]? = some child ∧
        (rest, e) ∈ child.preorder := by
  induction children generalizing index with
  | nil => simp [preorderFrom]
  | cons first others ih =>
      rw [preorderFrom, List.mem_append, ih]
      constructor
      · rintro (hfirst | ⟨offset, rest, child, rfl, hchild, hrest⟩)
        · rcases List.mem_map.1 hfirst with ⟨⟨rest, e'⟩, hrest, heq⟩
          cases heq
          exact ⟨0, rest, first, rfl, rfl, hrest⟩
        · refine ⟨offset + 1, rest, child, ?_, hchild, hrest⟩
          rw [Nat.add_right_comm, Nat.add_assoc]
      · rintro ⟨offset, rest, child, rfl, hchild, hrest⟩
        cases offset with
        | zero =>
            cases hchild
            exact .inl (List.mem_map.2 ⟨(rest, e), hrest, rfl⟩)
        | succ offset =>
            refine .inr ⟨offset, rest, child, ?_, hchild, hrest⟩
            rw [Nat.add_right_comm, Nat.add_assoc]

end Children

/-- The list has exactly the positions that paths lead to. -/
theorem mem_preorder_iff {root e : Expr} {path : Path} :
    (path, e) ∈ root.preorder ↔ root.resolve? path = some e := by
  induction path generalizing root with
  | nil =>
      rw [preorder_eq, List.mem_cons, mem_preorderFrom_iff]
      simp [eq_comm]
  | cons index rest ih =>
      rw [preorder_eq, List.mem_cons, mem_preorderFrom_iff, resolve?_cons, Option.bind_eq_some_iff]
      constructor
      · rintro (hroot | ⟨offset, rest', child, hpath, hchild, hrest⟩)
        · cases hroot
        · rw [Nat.zero_add] at hpath
          cases hpath
          exact ⟨child, hchild, ih.1 hrest⟩
      · rintro ⟨child, hchild, hrest⟩
        exact .inr ⟨index, rest, child, by rw [Nat.zero_add], hchild, ih.2 hrest⟩

/-- Positions that come later have a greater path. -/
def Earlier (a b : Path × Expr) : Prop :=
  a.1 < b.1

theorem preorderFrom_sorted {children : List Expr}
    (sorted : ∀ child ∈ children, child.preorder.Pairwise Earlier) (index : Nat) :
    (preorderFrom index children).Pairwise Earlier := by
  induction children generalizing index with
  | nil => exact .nil
  | cons child rest ih =>
      rw [List.forall_mem_cons] at sorted
      rw [preorderFrom, List.pairwise_append]
      refine ⟨?_, ih sorted.2 (index + 1), ?_⟩
      · refine List.pairwise_map.2 (sorted.1.imp ?_)
        intro a b hab
        exact List.cons_lt_cons_iff.2 (.inr ⟨rfl, hab⟩)
      -- What is below a later child has a greater index in front.
      · intro a ha b hb
        rcases List.mem_map.1 ha with ⟨position, -, rfl⟩
        rcases mem_preorderFrom_iff.1 hb with ⟨offset, path, _, hpath, -, -⟩
        have hindex : index < index + 1 + offset := by omega
        show index :: position.1 < b.1
        rw [hpath]
        exact List.cons_lt_cons_iff.2 (.inl hindex)

theorem preorder_sorted (root : Expr) : root.preorder.Pairwise Earlier := by
  induction root using inductionOnChildren with
  | step root ih =>
      rw [preorder_eq, List.pairwise_cons]
      refine ⟨?_, preorderFrom_sorted ih 0⟩
      intro position hposition
      rcases mem_preorderFrom_iff.1 hposition with ⟨offset, rest, _, hpath, -, -⟩
      show [] < position.1
      rw [hpath]
      exact List.nil_lt_cons ..

/-- Among sorted positions, none with a property comes before the one that is found by it. -/
theorem le_of_find? {positions : List (Path × Expr)} {wanted : Path × Expr → Bool}
    {found other : Path × Expr} (sorted : positions.Pairwise Earlier)
    (hfind : positions.find? wanted = some found) (hother : other ∈ positions)
    (hwanted : wanted other = true) : found.1 ≤ other.1 := by
  induction positions with
  | nil => cases hfind
  | cons first rest ih =>
      rcases List.pairwise_cons.1 sorted with ⟨before, rest_sorted⟩
      by_cases hfirst : wanted first = true
      · rw [List.find?_cons_of_pos hfirst] at hfind
        cases hfind
        rcases List.mem_cons.1 hother with rfl | hrest
        · exact le_refl _
        · exact le_of_lt (before other hrest)
      · rw [List.find?_cons_of_neg hfirst] at hfind
        rcases List.mem_cons.1 hother with rfl | hrest
        · exact absurd hwanted hfirst
        · exact ih rest_sorted hfind hrest

/-! ## The search -/

/-- What a search is left with: the path to the position that was found, or the buffer as it was. -/
def searchResult (steps : Path) : Option (Path × Expr) → Bool × Path
  | some (path, _) => (true, steps ++ path)
  | none => (false, steps)

theorem locateInto_of_ne {node target : Expr} (h : node ≠ target) (steps : Path) :
    node.locateInto target steps = node.children.zipIdx.foldl
      (fun state visited => searchChild (visited.1.locateInto target) state visited.2)
      (false, steps) := by
  rw [locateInto, if_neg h, ← zipIdx_attach, List.foldl_map]

/-- Children that come after a target was found leave everything as it is. -/
theorem foldl_searchChild_found (target : Expr) (steps : Path) (visited : List (Expr × Nat)) :
    visited.foldl (fun state visited => searchChild (visited.1.locateInto target) state visited.2)
      (true, steps) = (true, steps) := by
  induction visited with
  | nil => rfl
  | cons first rest ih => exact ih

/-- One child after the other is searched, with the same buffer for each. -/
theorem foldl_searchChild {target : Expr} {children : List Expr}
    (search : ∀ child ∈ children, ∀ steps, child.locateInto target steps =
      searchResult steps (child.preorder.find? fun position => position.2 = target))
    (index : Nat) (steps : Path) :
    (children.zipIdx index).foldl
        (fun state visited => searchChild (visited.1.locateInto target) state visited.2)
        (false, steps) =
      searchResult steps ((preorderFrom index children).find? fun position => position.2 = target) := by
  induction children generalizing index with
  | nil => rfl
  | cons child rest ih =>
      rw [List.forall_mem_cons] at search
      have hfind : ((child.preorder.map (belowChild index)).find? fun position =>
          position.2 = target) =
            (child.preorder.find? fun position => position.2 = target).map (belowChild index) :=
        List.find?_map ..
      rw [List.zipIdx_cons, List.foldl_cons, preorderFrom, List.find?_append, hfind]
      have hchild := search.1 (steps ++ [index])
      cases hfound : child.preorder.find? fun position => position.2 = target with
      | some position =>
          have hstep : searchChild (child.locateInto target) (false, steps) index =
              (true, steps ++ index :: position.1) := by
            simp [searchChild, hchild, hfound, searchResult]
          rw [hstep, foldl_searchChild_found]
          rfl
      -- The step into the child is taken back before the next one is made.
      | none =>
          have hstep : searchChild (child.locateInto target) (false, steps) index =
              (false, steps) := by
            simp [searchChild, hchild, hfound, searchResult]
          rw [hstep, ih search.2 (index + 1)]
          rfl

/-- A search finds the first position of the target, and leaves the buffer as it was if there is none. -/
theorem locateInto_eq (node target : Expr) (steps : Path) :
    node.locateInto target steps =
      searchResult steps (node.preorder.find? fun position => position.2 = target) := by
  -- Below a node the buffer is longer, so the claim is for all buffers.
  induction node using inductionOnChildren generalizing steps with
  | step node ih =>
      rw [preorder_eq]
      by_cases h : node = target
      · rw [locateInto, if_pos h, List.find?_cons_of_pos (by simpa using h)]
        simp [searchResult]
      · rw [locateInto_of_ne h, List.find?_cons_of_neg (by simpa using h)]
        exact foldl_searchChild ih 0 steps

theorem locate?_eq_find? (root target : Expr) :
    root.locate? target =
      (root.preorder.find? fun position => position.2 = target).map (·.1) := by
  rw [locate?, locateInto_eq]
  cases root.preorder.find? fun position => position.2 = target <;> rfl

section Locate

variable {root target : Expr} {path : Path}

/-- What is located is the target, and no other path to it comes before. -/
theorem first_of_locate? (h : root.locate? target = some path) :
    root.resolve? path = some target ∧
      ∀ other, root.resolve? other = some target → path ≤ other := by
  rw [locate?_eq_find?] at h
  rcases Option.map_eq_some_iff.1 h with ⟨⟨path', e⟩, hfind, rfl⟩
  have htarget := List.find?_some hfind
  obtain rfl : e = target := of_decide_eq_true htarget
  constructor
  · exact mem_preorder_iff.1 (List.mem_of_find?_eq_some hfind)
  · intro other hother
    exact le_of_find? (preorder_sorted root) hfind (mem_preorder_iff.2 hother) htarget

/-- A node that some path leads to is located. -/
theorem exists_locate? (h : root.resolve? path = some target) :
    ∃ first, root.locate? target = some first := by
  rw [locate?_eq_find?]
  cases hfind : root.preorder.find? fun position => position.2 = target with
  | some position => exact ⟨position.1, rfl⟩
  | none =>
      have hnot := List.find?_eq_none.1 hfind (path, target) (mem_preorder_iff.2 h)
      simp at hnot

end Locate

/-- A node is located exactly if it occurs in a template.  The path that is located leads to that very node,
and it is the first one to do so; and whatever node a path leads to, it is located at this path or before. -/
theorem locate_inverts_resolve (root target : Expr) :
    ((∃ path, root.locate? target = some path) ↔ root.Contains target) ∧
    (∀ path, root.locate? target = some path →
      root.resolve? path = some target ∧
        ∀ other, root.resolve? other = some target → path ≤ other) ∧
    ∀ path e, root.resolve? path = some e →
      ∃ first, root.locate? e = some first ∧ first ≤ path ∧ root.resolve? first = some e := by
  refine ⟨⟨?_, ?_⟩, ?_, ?_⟩
  · rintro ⟨path, hpath⟩
    exact contains_of_resolve? (first_of_locate? hpath).1
  · intro occurs
    rcases exists_path_of_contains occurs with ⟨path, hpath⟩
    exact exists_locate? hpath
  · intro path hpath
    exact first_of_locate? hpath
  · intro path e hpath
    rcases exists_locate? hpath with ⟨first, hfirst⟩
    rcases first_of_locate? hfirst with ⟨hresolve, hleast⟩
    exact ⟨first, hfirst, hleast path hpath, hresolve⟩

namespace Sample

def thirty (serial : Nat) : Expr :=
  ⟨serial, .int64, .constant (.long 30)⟩

/-- A sum whose operands share a literal. -/
def difference : Expr :=
  ⟨2, .int64, .binary .add none ⟨1, .int64, .unary .negate none (thirty 0)⟩ (thirty 0) none⟩

end Sample

/-- Of the two positions of a shared literal the first one is located, and a copy of the literal is none of
its occurrences. -/
theorem shared_literal_located :
    Sample.difference.resolve? [1] = some (Sample.thirty 0) ∧
      Sample.difference.locate? (Sample.thirty 0) = some [0, 0] ∧
      Sample.difference.resolve? [0, 0] = some (Sample.thirty 0) ∧ ([0, 0] : Path) ≤ [1] ∧
      ¬Sample.difference.Contains (Sample.thirty 3) := by
  have located : Sample.difference.locate? (Sample.thirty 0) = some [0, 0] := by decide +kernel
  have missing : Sample.difference.locate? (Sample.thirty 3) = none := by decide +kernel
  rcases (locate_inverts_resolve Sample.difference (Sample.thirty 0)).2.1 _ located with ⟨found, least⟩
  refine ⟨rfl, located, found, least [1] rfl, ?_⟩
  intro occurs
  rcases (locate_inverts_resolve Sample.difference (Sample.thirty 3)).1.2 occurs with ⟨path, hpath⟩
  cases missing.symm.trans hpath

end Expr
end QueryPlan
