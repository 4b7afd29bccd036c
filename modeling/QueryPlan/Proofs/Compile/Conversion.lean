import QueryPlan.Compile.Body

/-!
# Conversion — what a successful conversion has done

`convert` threads a list of slots through an expression.  Here its successful runs are described
without any state: `Converts slots frame path e τ` says that the expression `e` at `path` becomes the
term `τ`, where `slots` is a list of slots that are already known.  A literal or captured variable
that is bound becomes the parameter whose slot in that list names its position.

`boundSlots` lists the positions that must be bound, left to right.  `converts_of_run` relates the two
to a run: the run appends exactly these slots, and its term is the one described, for the slots it
ends with and hence for every longer list.
-/

namespace QueryPlan
namespace Compile

open Sql (Slot SlotSource Shape Term)

/-! ## Runs -/

section Runs

variable {α β : Type}

theorem run_pure (a : α) (slots : List Slot) :
    (pure a : Conversion α).run slots = .ok (a, slots) := rfl

/-- A sequence of two conversions succeeds exactly when both do. -/
theorem run_bind_ok {m : Conversion α} {f : α → Conversion β} {slots slots' : List Slot} {b : β} :
    (m >>= f).run slots = .ok (b, slots') ↔
      ∃ a between, m.run slots = .ok (a, between) ∧ (f a).run between = .ok (b, slots') := by
  rw [StateT.run_bind]
  cases hm : m.run slots with
  | error e => simp [bind, Except.bind]
  | ok r =>
      rcases r with ⟨a, between⟩
      constructor
      · intro h
        exact ⟨a, between, rfl, h⟩
      · rintro ⟨_, _, heq, h⟩
        cases heq
        exact h

/-- Mapping the result of a conversion does not touch the slots. -/
theorem run_bind_pure_ok {m : Conversion α} {f : α → β} {slots slots' : List Slot} {b : β} :
    (m >>= fun a => pure (f a)).run slots = .ok (b, slots') ↔
      ∃ a, m.run slots = .ok (a, slots') ∧ f a = b := by
  rw [run_bind_ok]
  constructor
  · rintro ⟨a, between, hm, hf⟩
    rw [run_pure] at hf
    cases hf
    exact ⟨a, hm, rfl⟩
  · rintro ⟨a, hm, rfl⟩
    exact ⟨a, slots', hm, rfl⟩

theorem run_bindSlot (path : Path) (source : SlotSource) (slots : List Slot) :
    (bindSlot path source).run slots = .ok (.param slots.length, slots ++ [⟨path, source⟩]) := rfl

end Runs

/-! ## Positions that are bound -/

/-- The slots of the literals and captured variables in an expression that must be bound, left to
right. -/
def boundSlots (path : Path) : Expr → List Slot
  | ⟨_, _, .member m (some ⟨_, _, .constant (.closure _)⟩)⟩ => [⟨path ++ [0], .captured m.name⟩]
  | ⟨_, ty, .constant value⟩ =>
      if !ty.isInlined && value.isScalar then [⟨path, .literal⟩] else []
  | ⟨_, _, .binary _ _ left right _⟩ =>
      boundSlots (path ++ [0]) left ++ boundSlots (path ++ [1]) right
  | ⟨_, _, .unary _ _ operand⟩ => boundSlots (path ++ [0]) operand
  | ⟨_, _, .conditional test ifTrue ifFalse⟩ =>
      boundSlots (path ++ [0]) test ++ boundSlots (path ++ [1]) ifTrue
        ++ boundSlots (path ++ [2]) ifFalse
  | _ => []
termination_by structural e => e

/-- The slots of consecutive children, the first of which has the given index. -/
def valueSlots (path : Path) : Nat → List Expr → List Slot
  | _, [] => []
  | index, e :: rest => boundSlots (path ++ [index]) e ++ valueSlots path (index + 1) rest

/-- A null that is inlined is not bound. -/
theorem boundSlots_of_isInlineNull {e : Expr} (path : Path) (h : isInlineNull e = true) :
    boundSlots path e = [] := by
  rcases e with ⟨id, ty, node⟩
  cases node with
  | constant value =>
      have hty : ty.isInlined = true := by
        simp only [isInlineNull, Bool.and_eq_true] at h
        exact h.1
      simp [boundSlots, hty]
  | _ => simp [isInlineNull, Expr.asConstant?] at h

/-! ## Expressions -/

/-- In a frame, the expression at a path becomes a term; bound positions refer to the given slots. -/
inductive Converts (slots : List Slot) (frame : Frame) : Path → Expr → Term → Prop where
  | element {path : Path} {id : Nat} {ty : Ty} {name : String} {τ : Term}
      (bound : frame.param = some name) (shape : frame.shape = .scalar τ) :
      Converts slots frame path ⟨id, ty, .parameter name⟩ τ
  | field {path : Path} {id id' : Nat} {ty ty' : Ty} {m : Member} {name : String} {τ : Term}
      (bound : frame.param = some name) (found : frame.shape.member? m.name = some τ) :
      Converts slots frame path ⟨id, ty, .member m (some ⟨id', ty', .parameter name⟩)⟩ τ
  | captured {path : Path} {id id' index : Nat} {ty ty' : Ty} {m : Member} {env : Env Value}
      (slot : slots[index]? = some ⟨path ++ [0], .captured m.name⟩) :
      Converts slots frame path ⟨id, ty, .member m (some ⟨id', ty', .constant (.closure env)⟩)⟩
        (.param index)
  | inlined {path : Path} {id : Nat} {ty : Ty} {value : Value} (inlined : ty.isInlined = true) :
      Converts slots frame path ⟨id, ty, .constant value⟩ (.literal value)
  | literal {path : Path} {id index : Nat} {ty : Ty} {value : Value}
      (notInlined : ty.isInlined = false) (scalar : value.isScalar = true)
      (slot : slots[index]? = some ⟨path, .literal⟩) :
      Converts slots frame path ⟨id, ty, .constant value⟩ (.param index)
  | nullRight {path : Path} {id : Nat} {ty : Ty} {op : BinaryOp} {method : Option Method}
      {left right : Expr} {conversion : Option Expr} {negated : Bool} {τ : Term}
      (test : nullTest? op = some negated) (null : isInlineNull right = true)
      (operandTerm : Converts slots frame (path ++ [0]) left τ) :
      Converts slots frame path ⟨id, ty, .binary op method left right conversion⟩
        (.isNull τ negated)
  | nullLeft {path : Path} {id : Nat} {ty : Ty} {op : BinaryOp} {method : Option Method}
      {left right : Expr} {conversion : Option Expr} {negated : Bool} {τ : Term}
      (test : nullTest? op = some negated) (notNull : isInlineNull right = false)
      (null : isInlineNull left = true) (operandTerm : Converts slots frame (path ++ [1]) right τ) :
      Converts slots frame path ⟨id, ty, .binary op method left right conversion⟩
        (.isNull τ negated)
  | binary {path : Path} {id : Nat} {ty : Ty} {op : BinaryOp} {method : Option Method}
      {left right : Expr} {conversion : Option Expr} {sqlOp : Sql.BinaryOp} {l r : Term}
      (noTest : nullTest? op = none ∨ isInlineNull left = false ∧ isInlineNull right = false)
      (operator : sqlOp? op (ty == .bool) = some sqlOp)
      (leftTerm : Converts slots frame (path ++ [0]) left l)
      (rightTerm : Converts slots frame (path ++ [1]) right r) :
      Converts slots frame path ⟨id, ty, .binary op method left right conversion⟩
        (combine sqlOp l r)
  | not {path : Path} {id : Nat} {ty : Ty} {method : Option Method} {operand : Expr} {τ : Term}
      (operandTerm : Converts slots frame (path ++ [0]) operand τ) :
      Converts slots frame path ⟨id, ty, .unary .not method operand⟩ (.not τ)
  | negate {path : Path} {id : Nat} {ty : Ty} {method : Option Method} {operand : Expr} {τ : Term}
      (operandTerm : Converts slots frame (path ++ [0]) operand τ) :
      Converts slots frame path ⟨id, ty, .unary .negate method operand⟩ (.negate τ)
  | transparent {path : Path} {id : Nat} {ty : Ty} {op : UnaryOp} {method : Option Method}
      {operand : Expr} {τ : Term} (wrapper : op ∈ [.convert, .quote, .typeAs, .unaryPlus])
      (operandTerm : Converts slots frame (path ++ [0]) operand τ) :
      Converts slots frame path ⟨id, ty, .unary op method operand⟩ τ
  | conditional {path : Path} {id : Nat} {ty : Ty} {test ifTrue ifFalse : Expr} {c a b : Term}
      (testTerm : Converts slots frame (path ++ [0]) test c)
      (trueTerm : Converts slots frame (path ++ [1]) ifTrue a)
      (falseTerm : Converts slots frame (path ++ [2]) ifFalse b) :
      Converts slots frame path ⟨id, ty, .conditional test ifTrue ifFalse⟩ (.caseWhen c a b)

namespace Converts

/-- Slots that are registered later do not change a conversion. -/
theorem mono {slots slots' : List Slot} {frame : Frame} {path : Path} {e : Expr} {τ : Term}
    (h : Converts slots frame path e τ) (hle : slots <+: slots') :
    Converts slots' frame path e τ := by
  -- Slots are only ever appended, so an index keeps its slot.
  have keep : ∀ {index : Nat} {slot : Slot}, slots[index]? = some slot →
      slots'[index]? = some slot := by
    intro index slot hslot
    -- `later` are the slots registered after the conversion.
    rcases hle with ⟨later, rfl⟩
    rw [List.getElem?_append_left (List.getElem?_eq_some_iff.1 hslot).1, hslot]
  induction h with
  | element bound shape => exact .element bound shape
  | field bound found => exact .field bound found
  | captured slot => exact .captured (keep slot)
  | inlined inlined => exact .inlined inlined
  | literal notInlined scalar slot => exact .literal notInlined scalar (keep slot)
  | nullRight test null _ ih => exact .nullRight test null ih
  | nullLeft test notNull null _ ih => exact .nullLeft test notNull null ih
  | binary noTest operator _ _ ihl ihr => exact .binary noTest operator ihl ihr
  | not _ ih => exact .not ih
  | negate _ ih => exact .negate ih
  | transparent wrapper _ ih => exact .transparent wrapper ih
  | conditional _ _ _ iht iha ihb => exact .conditional iht iha ihb

end Converts

/-! ## Successful runs -/

section Success

variable {frame : Frame} {path : Path} {slots slots' : List Slot} {τ : Term}

theorem converts_of_run_element {id : Nat} {ty : Ty} {name : String}
    (h : (convertElement frame name).run slots = .ok (τ, slots')) :
    slots' = slots ∧ Converts slots' frame path ⟨id, ty, .parameter name⟩ τ := by
  unfold convertElement at h
  split at h
  · next bound =>
      split at h
      · next term shape =>
          cases h
          exact ⟨rfl, .element bound shape⟩
      · cases h
  · cases h

theorem converts_of_run_member {id : Nat} {ty : Ty} {m : Member} {object : Option Expr}
    (h : (convertMember frame path m object).run slots = .ok (τ, slots')) :
    slots' = slots ++ boundSlots path ⟨id, ty, .member m object⟩ ∧
      Converts slots' frame path ⟨id, ty, .member m object⟩ τ := by
  unfold convertMember at h
  split at h
  · split at h
    · next bound =>
        split at h
        · next term found =>
            cases h
            exact ⟨by simp [boundSlots], .field bound found⟩
        · cases h
    · cases h
  · rw [run_bindSlot] at h
    cases h
    exact ⟨by simp [boundSlots], .captured (by simp)⟩
  · cases h

theorem converts_of_run_constant {id : Nat} {ty : Ty} {value : Value}
    (h : (convertConstant frame path ty value).run slots = .ok (τ, slots')) :
    slots' = slots ++ boundSlots path ⟨id, ty, .constant value⟩ ∧
      Converts slots' frame path ⟨id, ty, .constant value⟩ τ := by
  unfold convertConstant at h
  split at h
  · next inlined =>
      cases h
      exact ⟨by simp [boundSlots, inlined], .inlined inlined⟩
  · next notInlined =>
      rw [Bool.not_eq_true] at notInlined
      split at h
      · next scalar =>
          rw [run_bindSlot] at h
          cases h
          exact ⟨by simp [boundSlots, notInlined, scalar], .literal notInlined scalar (by simp)⟩
      · cases h

/-- A successful conversion registers a slot for every position that must be bound, in order, and
refers to each of these positions by the index of its slot. -/
theorem converts_of_run {e : Expr} (h : (convert frame path e).run slots = .ok (τ, slots')) :
    slots' = slots ++ boundSlots path e ∧ Converts slots' frame path e τ := by
  fun_induction convert frame path e generalizing slots slots' τ with
  | case1 path id ty name =>
      rcases converts_of_run_element h with ⟨rfl, hconv⟩
      exact ⟨by simp [boundSlots], hconv⟩
  | case2 path id ty m object => exact converts_of_run_member h
  | case3 path id ty value => exact converts_of_run_constant h
  -- A null test converts the other operand alone; the inlined null binds nothing.
  | case4 path id ty op method left right conversion negated null test ih =>
      rcases run_bind_pure_ok.1 h with ⟨l, hl, rfl⟩
      rcases ih hl with ⟨rfl, hleft⟩
      exact ⟨by simp [boundSlots, boundSlots_of_isInlineNull _ null], .nullRight test null hleft⟩
  | case5 path id ty op method left right conversion negated null notNull test ih =>
      rcases run_bind_pure_ok.1 h with ⟨r, hr, rfl⟩
      rcases ih hr with ⟨rfl, hright⟩
      exact ⟨by simp [boundSlots, boundSlots_of_isInlineNull _ null],
        .nullLeft test notNull null hright⟩
  | case6 path id ty op method left right conversion sqlOp operator noRight noLeft ihl ihr =>
      rcases run_bind_ok.1 h with ⟨l, between, hl, h⟩
      rcases run_bind_pure_ok.1 h with ⟨r, hr, rfl⟩
      rcases ihl hl with ⟨rfl, hleft⟩
      rcases ihr hr with ⟨rfl, hright⟩
      -- Both early returns were passed over: either there is no null test for the operator, or neither
      -- operand is an inlined null.
      have noTest : nullTest? op = none ∨ isInlineNull left = false ∧ isInlineNull right = false := by
        cases htest : nullTest? op with
        | none => exact .inl rfl
        | some negated =>
            have hr : isInlineNull right = false := by simpa using noRight negated htest
            exact .inr ⟨by simpa using noLeft negated htest hr, hr⟩
      exact ⟨by simp [boundSlots],
        .binary noTest operator (hleft.mono (List.prefix_append _ _)) hright⟩
  | case7 => cases h
  | case8 path id ty method operand ih =>
      rcases run_bind_pure_ok.1 h with ⟨t, ht, rfl⟩
      rcases ih ht with ⟨rfl, hoperand⟩
      exact ⟨by simp [boundSlots], .not hoperand⟩
  | case9 path id ty method operand ih =>
      rcases run_bind_pure_ok.1 h with ⟨t, ht, rfl⟩
      rcases ih ht with ⟨rfl, hoperand⟩
      exact ⟨by simp [boundSlots], .negate hoperand⟩
  -- Conversions, quotes and the like leave their operand as it is.
  | case10 path id ty method operand ih
  | case11 path id ty method operand ih
  | case12 path id ty method operand ih
  | case13 path id ty method operand ih =>
      rcases ih h with ⟨rfl, hoperand⟩
      exact ⟨by simp [boundSlots], .transparent (by simp) hoperand⟩
  | case14 => cases h
  | case15 path id ty test ifTrue ifFalse iht iha ihb =>
      rcases run_bind_ok.1 h with ⟨c, afterTest, hc, h⟩
      rcases run_bind_ok.1 h with ⟨a, afterTrue, ha, h⟩
      rcases run_bind_pure_ok.1 h with ⟨b, hb, rfl⟩
      rcases iht hc with ⟨rfl, htest⟩
      rcases iha ha with ⟨rfl, htrue⟩
      rcases ihb hb with ⟨rfl, hfalse⟩
      -- Terms of earlier operands refer to a shorter list of slots.
      have htest := (htest.mono (List.prefix_append _ (boundSlots (path ++ [1]) ifTrue))).mono
        (List.prefix_append _ (boundSlots (path ++ [2]) ifFalse))
      have htrue := htrue.mono (List.prefix_append _ (boundSlots (path ++ [2]) ifFalse))
      exact ⟨by simp [boundSlots], .conditional htest htrue hfalse⟩
  | case16 => cases h

end Success

end Compile
end QueryPlan
