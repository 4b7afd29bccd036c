import QueryPlan.Proofs.Semantics.Sequence

/-!
# Order — what the operators of a chain do to its elements in order

A sequence defers its sorts until its elements are looked at.  `Acts` says what each operator does to
the elements in order, without that detour.  Filters, projections and bounds are applied to them one
by one.  `OrderBy` sorts the elements anew, from the order in which they arrived; `ThenBy` sorts them
by the keys in force and decides their ties by a further key; elements that are still tied remain in
the order in which they arrived.

A filter may come after a sort because a stable sort by a total and transitive order keeps the order
of whatever is kept, and a further key only decides ties because all elements have equally many keys
in force (`Sequence.Uniform`), which every operator preserves.
-/

namespace QueryPlan
namespace Semantics

/-! ## Stable sorts -/

section Sorts

variable {α : Type} {le : α → α → Bool}

/-- A stable sort puts an entry before all entries that it is below and after all others, which are in
this order without it too. -/
theorem mergeSort_cons (trans : ∀ a b c, le a b = true → le b c = true → le a c = true)
    (total : ∀ a b, (le a b || le b a) = true) (a : α) (l : List α) :
    (a :: l).mergeSort le =
        (l.mergeSort le).filter (!le a ·) ++ a :: (l.mergeSort le).filter (le a ·) ∧
      l.mergeSort le = (l.mergeSort le).filter (!le a ·) ++ (l.mergeSort le).filter (le a ·) := by
  rcases List.mergeSort_cons trans total a l with ⟨before, after, hsorted, hl, hbefore⟩
  -- What follows the entry in the sorted list is not below it.
  have hafter : ∀ b ∈ after, le a b = true := by
    have pairwise := List.pairwise_mergeSort trans total (a :: l)
    rw [hsorted, List.pairwise_append, List.pairwise_cons] at pairwise
    exact pairwise.2.1.1
  have none_after : after.filter (!le a ·) = [] :=
    List.filter_eq_nil_iff.2 fun b hb => by simp [hafter b hb]
  have none_before : before.filter (le a ·) = [] :=
    List.filter_eq_nil_iff.2 fun b hb => by simpa using hbefore b hb
  have hfirst : (l.mergeSort le).filter (!le a ·) = before := by
    rw [hl, List.filter_append, none_after, List.filter_eq_self.2 hbefore, List.append_nil]
  have hsecond : (l.mergeSort le).filter (le a ·) = after := by
    rw [hl, List.filter_append, none_before, List.filter_eq_self.2 hafter, List.nil_append]
  rw [hfirst, hsecond]
  exact ⟨hsorted, hl⟩

/-- Sorting what a test keeps is keeping what the test keeps of the sorted list. -/
theorem filter_mergeSort (trans : ∀ a b c, le a b = true → le b c = true → le a c = true)
    (total : ∀ a b, (le a b || le b a) = true) (test : α → Bool) (l : List α) :
    (l.filter test).mergeSort le = (l.mergeSort le).filter test := by
  induction l with
  | nil => simp
  | cons a rest ih =>
      rcases mergeSort_cons trans total a rest with ⟨hsorted, hrest⟩
      rw [hsorted, List.filter_append, List.filter_cons, List.filter_cons]
      split
      · -- The kept entry takes the same place among the kept ones.
        rw [(mergeSort_cons trans total a _).1, ih]
        simp only [List.filter_filter, Bool.and_comm]
      · -- Without the dropped entry, what came before and after it closes up.
        rw [ih, ← List.filter_append, ← hrest]

/-- Only comparisons of entries matter. -/
theorem mergeSort_congr {le' : α → α → Bool} {l : List α}
    (same : ∀ a ∈ l, ∀ b ∈ l, le a b = le' a b) : l.mergeSort le = l.mergeSort le' := by
  have h := List.map_mergeSort (f := id) same
  rwa [List.map_id, List.map_id] at h

/-- The order of entries by one comparison, where ties are decided by another one. -/
def refined (le ties : α → α → Bool) (a b : α) : Bool :=
  if le a b && le b a then ties a b else le a b

end Sorts

/-! ## Orders of elements -/

section Orders

variable {V : Type} (I : Interpretation V)

/-- The order of elements by the sort keys in force. -/
def inForce (a b : Element V × List (V × Bool)) : Bool :=
  I.leKeys a.2 b.2

/-- The order of elements by a key of their own. -/
def byKey (descending : Bool) (key : Element V → List V) (a b : Element V) : Bool :=
  I.leKeys ((key a).map (·, descending)) ((key b).map (·, descending))

variable {I}

/-- Further keys decide where the first ones, equally many on both sides, are tied. -/
theorem leKeys_append {as bs : List (V × Bool)} (same : as.length = bs.length)
    (as' bs' : List (V × Bool)) :
    I.leKeys (as ++ as') (bs ++ bs') =
      if I.leKeys as bs && I.leKeys bs as then I.leKeys as' bs' else I.leKeys as bs := by
  induction as generalizing bs with
  | nil =>
      cases List.eq_nil_of_length_eq_zero same.symm
      rfl
  | cons a as ih =>
      cases bs with
      | nil => cases same
      | cons b bs =>
          have rest := ih (Nat.succ.inj same)
          cases hab : I.leKey a b <;> cases hba : I.leKey b a <;>
            simp [Interpretation.leKeys, hab, hba, rest]

end Orders

namespace Sequence

variable {V : Type} {I : Interpretation V} {s s' : Sequence V}

/-! ## What arrives -/

theorem arrived_of_filter? {test : Element V → Option Bool} (h : s.filter? test = some s') :
    (∀ a ∈ s.arrived, test a.1 = some ((test a.1).getD false)) ∧
      s'.arrived = s.arrived.filter fun a => (test a.1).getD false := by
  rcases Option.bind_eq_some_iff.1 h with ⟨arrived, harrived, hpure⟩
  cases hpure
  exact eq_of_keep harrived

theorem arrived_of_map? {f : Element V → Option (Element V)} (h : s.map? f = some s') :
    (∀ a ∈ s.arrived, f a.1 = some ((f a.1).getD a.1)) ∧
      s'.arrived = s.arrived.map fun a => ((f a.1).getD a.1, a.2) := by
  rcases Option.bind_eq_some_iff.1 h with ⟨arrived, harrived, hpure⟩
  cases hpure
  exact eq_of_mapM (fun a => a.1) harrived

theorem arrived_of_sort? {refines descending : Bool} {key : Element V → Option (List V)}
    (h : s.sort? refines descending key = some s') :
    (∀ a ∈ s.arrived, key a.1 = some ((key a.1).getD [])) ∧
      s'.arrived = s.arrived.map fun a =>
        (a.1, (if refines then a.2 else []) ++ ((key a.1).getD []).map (·, descending)) := by
  rcases Option.bind_eq_some_iff.1 h with ⟨arrived, harrived, hpure⟩
  cases hpure
  exact eq_of_mapM (fun _ => []) harrived

/-! ## Equally many keys -/

/-- All elements have sort keys of the same directions in force. -/
def Uniform (s : Sequence V) : Prop :=
  ∃ directions, ∀ a ∈ s.arrived, a.2.map (·.2) = directions

theorem uniform_ofElements (elements : List (Element V)) : (ofElements elements).Uniform := by
  refine ⟨[], fun a ha => ?_⟩
  rcases List.mem_map.1 ha with ⟨element, -, rfl⟩
  rfl

/-- A key selector gives equally many values for all elements. -/
theorem length_of_keyOf? (I : Interpretation V) (param : String) (body : Expr) :
    ∃ count, ∀ element values, keyOf? I param element body = some values →
      values.length = count := by
  rcases body with ⟨id, ty, node⟩
  cases node with
  | construct construction =>
      exact ⟨construction.args.length, fun element values h => length_of_mapM h⟩
  | memberInit construction bindings =>
      refine ⟨((bindings.mapM assigned?).getD []).length, fun element values h => ?_⟩
      simp only [keyOf?] at h
      split at h
      · rcases Option.bind_eq_some_iff.1 h with ⟨fields, hfields, hvalues⟩
        rw [length_of_mapM hvalues, List.length_map, hfields]
        rfl
      · cases h
  | _ =>
      refine ⟨1, fun element values h => ?_⟩
      simp only [keyOf?] at h
      rcases Option.bind_eq_some_iff.1 h with ⟨value, -, hpure⟩
      cases hpure
      rfl

theorem Uniform.sort {refines descending : Bool} {key : Element V → Option (List V)}
    (uniform : s.Uniform) {count : Nat}
    (equal : ∀ element values, key element = some values → values.length = count)
    (h : s.sort? refines descending key = some s') : s'.Uniform := by
  rcases uniform with ⟨directions, uniform⟩
  rcases arrived_of_sort? h with ⟨defined, harrived⟩
  refine ⟨(if refines then directions else []) ++ List.replicate count descending, fun b hb => ?_⟩
  rw [harrived] at hb
  rcases List.mem_map.1 hb with ⟨a, ha, rfl⟩
  have hcount := equal _ _ (defined a ha)
  have added : (((key a.1).getD []).map (·, descending)).map (·.2) =
      List.replicate count descending := by
    rw [List.map_map, ← hcount]
    exact List.map_const'
  rw [List.map_append, added]
  cases refines with
  | false => rfl
  | true => rw [if_pos rfl, if_pos rfl, uniform a ha]

/-- Every operator leaves equally many keys in force for all elements. -/
theorem Uniform.operate (uniform : s.Uniform) {operator : Operator} {argument : Expr}
    (h : s.operate? I operator argument = some s') : s'.Uniform := by
  have sorted : ∀ {refines descending : Bool},
      s.sortBy? I refines descending argument = some s' → s'.Uniform := by
    intro refines descending h
    rcases Option.bind_eq_some_iff.1 h with ⟨⟨param, body⟩, -, h⟩
    rcases length_of_keyOf? I param body with ⟨count, equal⟩
    exact uniform.sort equal h
  cases operator with
  | filter =>
      rcases Option.bind_eq_some_iff.1 h with ⟨⟨param, body⟩, -, h⟩
      rcases uniform with ⟨directions, uniform⟩
      refine ⟨directions, fun a ha => uniform a ?_⟩
      rw [(arrived_of_filter? h).2] at ha
      exact (List.mem_filter.1 ha).1
  | select =>
      rcases Option.bind_eq_some_iff.1 h with ⟨⟨param, body⟩, -, h⟩
      rcases uniform with ⟨directions, uniform⟩
      refine ⟨directions, fun b hb => ?_⟩
      rw [(arrived_of_map? h).2] at hb
      rcases List.mem_map.1 hb with ⟨a, ha, rfl⟩
      exact uniform a ha
  | take | skip =>
      rcases Option.bind_eq_some_iff.1 h with ⟨count, -, hpure⟩
      cases hpure
      exact uniform_ofElements _
  | orderBy | orderByDescending | thenBy | thenByDescending => exact sorted h

/-! ## Elements in order -/

theorem elements_eq (s : Sequence V) :
    s.elements I = (s.arrived.mergeSort (inForce I)).map (·.1) :=
  rfl

theorem elements_of_filter? (ordered : I.Ordered) {test : Element V → Option Bool}
    (h : s.filter? test = some s') : keep? test (s.elements I) = some (s'.elements I) := by
  rcases arrived_of_filter? h with ⟨defined, harrived⟩
  have hsort : (s.arrived.filter fun a => (test a.1).getD false).mergeSort (inForce I) =
      (s.arrived.mergeSort (inForce I)).filter fun a => (test a.1).getD false :=
    filter_mergeSort (fun a b c => ordered.leKeys_trans a.2 b.2 c.2)
      (fun a b => ordered.leKeys_total a.2 b.2) _ _
  have tested : ∀ element ∈ s.elements I, test element = some ((test element).getD false) := by
    intro element helement
    rcases List.mem_map.1 helement with ⟨a, ha, rfl⟩
    exact defined a (List.mem_mergeSort.1 ha)
  rw [keep?_eq_some tested, elements_eq, elements_eq, harrived, hsort, List.filter_map]
  rfl

theorem elements_of_map? {f : Element V → Option (Element V)} (h : s.map? f = some s') :
    (s.elements I).mapM f = some (s'.elements I) := by
  rcases arrived_of_map? h with ⟨defined, harrived⟩
  -- A projection keeps the keys, so that the projected elements are sorted in the same way.
  rw [elements_eq, elements_eq, harrived, ← map_mergeSort, List.mapM_map, List.map_map]
  exact mapM_eq_some fun a ha => defined a (List.mem_mergeSort.1 ha)

theorem elements_take (s : Sequence V) (count : Nat) :
    (s.take I count).elements I = (s.elements I).take count :=
  elements_ofElements _

theorem elements_skip (s : Sequence V) (count : Nat) :
    (s.skip I count).elements I = (s.elements I).drop count :=
  elements_ofElements _

/-- The elements sorted by a key, from the order in which they arrived. -/
def sortedAnew (I : Interpretation V) (s : Sequence V) (descending : Bool)
    (key : Element V → List V) : List (Element V) :=
  (s.arrived.map (·.1)).mergeSort (byKey I descending key)

/-- The elements sorted by the keys in force, where a further key decides ties. -/
def sortedFurther (I : Interpretation V) (s : Sequence V) (descending : Bool)
    (key : Element V → List V) : List (Element V) :=
  (s.arrived.mergeSort (refined (inForce I) fun a b => byKey I descending key a.1 b.1)).map (·.1)

/-- A sort keeps what arrived and sorts it by the keys that are then in force. -/
theorem elements_of_sort? {refines descending : Bool} {key : Element V → Option (List V)}
    (h : s.sort? refines descending key = some s') :
    s'.elements I = (s.arrived.mergeSort fun a b => I.leKeys
      ((if refines then a.2 else []) ++ ((key a.1).getD []).map (·, descending))
      ((if refines then b.2 else []) ++ ((key b.1).getD []).map (·, descending))).map (·.1) := by
  rw [elements_eq, (arrived_of_sort? h).2, ← map_mergeSort, List.map_map]
  rfl

theorem elements_of_sort_anew {descending : Bool} {key : Element V → Option (List V)}
    (h : s.sort? false descending key = some s') :
    s'.elements I = s.sortedAnew I descending fun element => (key element).getD [] := by
  rw [elements_of_sort? h, sortedAnew, ← map_mergeSort]
  rfl

theorem elements_of_sort_further (uniform : s.Uniform) {descending : Bool}
    {key : Element V → Option (List V)} (h : s.sort? true descending key = some s') :
    s'.elements I = s.sortedFurther I descending fun element => (key element).getD [] := by
  rcases uniform with ⟨directions, uniform⟩
  rw [elements_of_sort? h, sortedFurther]
  congr 1
  -- The two comparisons agree on elements with equally many keys in force.
  refine mergeSort_congr fun a ha b hb => ?_
  have same : a.2.length = b.2.length := by
    have directed := congrArg List.length ((uniform a ha).trans (uniform b hb).symm)
    rwa [List.length_map, List.length_map] at directed
  exact leKeys_append same _ _

/-! ## What operators do -/

/-- A sort by a function of the element, which gives every element a key to be `sorted` by. -/
def Sorts (I : Interpretation V) (argument : Expr) (s s' : Sequence V)
    (sorted : (Element V → List V) → List (Element V)) : Prop :=
  ∃ param body key, function? argument = some (param, body) ∧
    (∀ a ∈ s.arrived, keyOf? I param a.1 body = some (key a.1)) ∧ s'.elements I = sorted key

/-- What an operator does to the elements in order. -/
def Acts (I : Interpretation V) (argument : Expr) (s s' : Sequence V) : Operator → Prop
  | .filter => ∃ param body, function? argument = some (param, body) ∧
      keep? (fun element => do return I.truth (← evaluate? I (some (param, element)) body))
        (s.elements I) = some (s'.elements I)
  | .select => ∃ param body, function? argument = some (param, body) ∧
      (s.elements I).mapM (project? I param · body) = some (s'.elements I)
  | .orderBy => Sorts I argument s s' (s.sortedAnew I false)
  | .orderByDescending => Sorts I argument s s' (s.sortedAnew I true)
  | .thenBy => Sorts I argument s s' (s.sortedFurther I false)
  | .thenByDescending => Sorts I argument s s' (s.sortedFurther I true)
  | .take => ∃ bound, evaluate? I none argument = some bound ∧
      s'.elements I = (s.elements I).take (I.count bound)
  | .skip => ∃ bound, evaluate? I none argument = some bound ∧
      s'.elements I = (s.elements I).drop (I.count bound)

theorem sorts_anew {descending : Bool} {argument : Expr}
    (h : s.sortBy? I false descending argument = some s') :
    Sorts I argument s s' (s.sortedAnew I descending) := by
  rcases Option.bind_eq_some_iff.1 h with ⟨⟨param, body⟩, hfunction, h⟩
  exact ⟨param, body, _, hfunction, (arrived_of_sort? h).1, elements_of_sort_anew h⟩

theorem sorts_further (uniform : s.Uniform) {descending : Bool} {argument : Expr}
    (h : s.sortBy? I true descending argument = some s') :
    Sorts I argument s s' (s.sortedFurther I descending) := by
  rcases Option.bind_eq_some_iff.1 h with ⟨⟨param, body⟩, hfunction, h⟩
  exact ⟨param, body, _, hfunction, (arrived_of_sort? h).1, elements_of_sort_further uniform h⟩

/-- An operator does to the elements in order what it stands for. -/
theorem acts_of_operate? (ordered : I.Ordered) (uniform : s.Uniform) {operator : Operator}
    {argument : Expr} (h : s.operate? I operator argument = some s') :
    Acts I argument s s' operator := by
  cases operator with
  | filter =>
      rcases Option.bind_eq_some_iff.1 h with ⟨⟨param, body⟩, hfunction, h⟩
      exact ⟨param, body, hfunction, elements_of_filter? ordered h⟩
  | select =>
      rcases Option.bind_eq_some_iff.1 h with ⟨⟨param, body⟩, hfunction, h⟩
      exact ⟨param, body, hfunction, elements_of_map? h⟩
  | orderBy | orderByDescending => exact sorts_anew h
  | thenBy | thenByDescending => exact sorts_further uniform h
  | take =>
      rcases Option.bind_eq_some_iff.1 h with ⟨bound, hbound, hpure⟩
      cases hpure
      exact ⟨bound, hbound, elements_take s _⟩
  | skip =>
      rcases Option.bind_eq_some_iff.1 h with ⟨bound, hbound, hpure⟩
      cases hpure
      exact ⟨bound, hbound, elements_skip s _⟩

end Sequence

/-! ## Chains -/

section Chains

variable {V : Type} {I : Interpretation V} {schema : Schema} {db : Database V} {s' : Sequence V}

theorem uniform_of_sequence? {e : Expr} (h : sequence? I schema db e = some s') : s'.Uniform := by
  fun_induction sequence? I schema db e generalizing s' with
  | case1 id ty m source argument ih =>
      rcases Option.bind_eq_some_iff.1 h with ⟨operator, -, h⟩
      rcases Option.bind_eq_some_iff.1 h with ⟨s, hs, h⟩
      exact (ih hs).operate h
  | case2 id ty table =>
      rcases Option.bind_eq_some_iff.1 h with ⟨source, -, hpure⟩
      cases hpure
      exact Sequence.uniform_ofElements _
  | case3 => cases h

/-- The operators of a chain act on the elements in order, one after the other. -/
theorem acts_of_sequence? (ordered : I.Ordered) {id : Nat} {ty : Ty} {m : Method}
    {source argument : Expr}
    (h : sequence? I schema db ⟨id, ty, .call m none [source, argument]⟩ = some s') :
    ∃ operator s, operator? m = some operator ∧ sequence? I schema db source = some s ∧
      Sequence.Acts I argument s s' operator := by
  rw [sequence?] at h
  rcases Option.bind_eq_some_iff.1 h with ⟨operator, hoperator, h⟩
  rcases Option.bind_eq_some_iff.1 h with ⟨s, hs, h⟩
  exact ⟨operator, s, hoperator, hs, Sequence.acts_of_operate? ordered (uniform_of_sequence? hs) h⟩

end Chains

end Semantics
end QueryPlan
