import Mathlib.Data.List.Basic
import QueryPlan.Proofs.Sql.Literals

/-!
# Legibility — which terms are read back from their text

Two-operand operators, `COALESCE` and `CASE` enclose their operands, so the text of such a term says
where each operand ends.  `NOT`, the minus sign and the null tests enclose nothing.  That does no harm
among the first two, which stand in front of their operand, nor among null tests, which stand behind it;
but the text of a null test of a negation is also that of the negation of a null test.

`Term.reading` picks one term for each text: the null tests behind a negation belong to its operand.
The reader `Term.ofText?` finds that term (`ofText?_text`).
-/

namespace QueryPlan

/-! ## Words -/

namespace Scan

variable {α : Type}

theorem word_append (w rest : List Char) : word w (w ++ rest) = some ((), rest) := by
  induction w with
  | nil => rfl
  | cons c w ih =>
      have read : word (c :: w) = (do expect c; word w) := rfl
      rw [read, List.cons_append, bind_of_eq (expect_cons c _)]
      exact ih

theorem span_append {p : Char → Bool} {w rest : List Char} (inside : ∀ c ∈ w, p c = true)
    (ends : ∀ c ∈ rest.head?, p c = false) : span p (w ++ rest) = some (w, rest) := by
  have stop : rest.takeWhile p = [] ∧ rest.dropWhile p = rest := by
    cases rest with
    | nil => exact ⟨rfl, rfl⟩
    | cons c rest => simp [ends c rfl]
  rw [span, List.takeWhile_append_of_pos inside, List.dropWhile_append_of_pos inside, stop.1, stop.2,
    List.append_nil]

/-- Read the first of some items whose text stands in front, if there is one. -/
def oneOf? (items : List α) (text : α → String) : Scan (Option α) := fun s =>
  match items.find? fun a => (text a).toList.isPrefixOf s with
  | some a => some (some a, s.drop (text a).toList.length)
  | none => some (none, s)

/-- No text of an item starts with the text of another one. -/
def PrefixFree (items : List α) (text : α → String) : Prop :=
  ∀ a ∈ items, ∀ b ∈ items, (text a).toList.isPrefixOf (text b).toList = true → a = b

theorem oneOf?_append {items : List α} {text : α → String} (free : PrefixFree items text) {a : α}
    (ha : a ∈ items) (rest : List Char) :
    oneOf? items text ((text a).toList ++ rest) = some (some a, rest) := by
  have found : items.find? (fun b => (text b).toList.isPrefixOf ((text a).toList ++ rest)) = some a := by
    cases h : items.find? (fun b => (text b).toList.isPrefixOf ((text a).toList ++ rest)) with
    | none =>
        have absent := List.find?_eq_none.1 h a ha
        simp at absent
    | some b =>
        have hb : b ∈ items := List.mem_of_find?_eq_some h
        have front : (text b).toList <+: (text a).toList ++ rest := by simpa using List.find?_some h
        -- Of two texts that stand in front of the same text, one starts with the other.
        rcases List.prefix_or_prefix_of_prefix front (List.prefix_append _ rest) with hle | hle
        · rw [free b hb a ha (List.isPrefixOf_iff_prefix.2 hle)]
        · rw [free a ha b hb (List.isPrefixOf_iff_prefix.2 hle)]
  rw [oneOf?, found]
  simp

theorem oneOf?_none {items : List α} {text : α → String} {s : List Char}
    (absent : ∀ a ∈ items, ¬ (text a).toList <+: s) : oneOf? items text s = some (none, s) := by
  have notFound : items.find? (fun a => (text a).toList.isPrefixOf s) = none :=
    List.find?_eq_none.2 fun a ha => by simpa using absent a ha
  rw [oneOf?, notFound]

end Scan

namespace Sql

open Scan

/-! ## Null tests -/

/-- What is written behind the operand of a null test. -/
def testText (negated : Bool) : String :=
  if negated then " IS NOT NULL" else " IS NULL"

/-- Read a null test, if there is one; says whether it is negated. -/
def nullTest : Scan (Option Bool) :=
  oneOf? [false, true] testText

/-- Null tests one after the other, the innermost first. -/
def testsText (tests : List Bool) : List Char :=
  tests.flatMap fun negated => (testText negated).toList

theorem nullTest_testText (negated : Bool) (rest : List Char) :
    nullTest ((testText negated).toList ++ rest) = some (some negated, rest) := by
  have free : PrefixFree [false, true] testText := by
    unfold PrefixFree
    decide
  exact oneOf?_append free (by cases negated <;> simp) rest

/-- Where a name or a number ends: at the end of the text or before a blank, a comma or a bracket. -/
def endsName (c : Char) : Bool :=
  c == ' ' || c == ',' || c == ')'

/-- What may follow a name or a number. -/
def Bounded (rest : List Char) : Prop :=
  ∀ c ∈ rest.head?, endsName c = true

/-- What may follow a term and all null tests behind it. -/
structure Ends (rest : List Char) : Prop where
  bounded : Bounded rest
  noTest : ∀ negated, ¬ (testText negated).toList <+: rest

theorem Ends.nil : Ends [] :=
  ⟨by simp [Bounded], fun negated => by cases negated <;> decide⟩

/-- A word may follow a term if it starts like what ends names and is told apart from null tests. -/
theorem Ends.word {w : String} (bounded : w.toList.head?.any endsName = true)
    (apart : ∀ negated, (testText negated).toList.isPrefixOf w.toList = false ∧
      w.toList.isPrefixOf (testText negated).toList = false) (rest : List Char) :
    Ends (w.toList ++ rest) where
  bounded := by
    cases h : w.toList with
    | nil => simp [h] at bounded
    | cons c s => simpa [Bounded, h] using bounded
  noTest := by
    intro negated front
    obtain ⟨shorter, longer⟩ := apart negated
    rcases List.prefix_or_prefix_of_prefix front (List.prefix_append _ rest) with hle | hle
    · rw [List.isPrefixOf_iff_prefix.2 hle] at shorter
      cases shorter
    · rw [List.isPrefixOf_iff_prefix.2 hle] at longer
      cases longer

/-- Null tests stand in front of what follows. -/
theorem bounded_testsText (tests : List Bool) {rest : List Char} (ends : Bounded rest) :
    Bounded (testsText tests ++ rest) := by
  cases tests with
  | nil => exact ends
  | cons negated tests => cases negated <;> simp [Bounded, testsText, testText, endsName]

theorem untilNone_nullTest (tests : List Bool) {rest : List Char} (ends : Ends rest) :
    ∀ bound : List Char, tests.length ≤ bound.length →
      untilNone nullTest bound (testsText tests ++ rest) = some (tests, rest) := by
  have stop : nullTest rest = some (none, rest) := oneOf?_none fun negated _ => ends.noTest negated
  induction tests with
  | nil =>
      intro bound _
      cases bound <;> exact bind_of_eq stop
  | cons negated tests ih =>
      intro bound hbound
      cases bound with
      | nil => simp at hbound
      | cons _ bound =>
          have fewer : tests.length ≤ bound.length := by simpa using hbound
          have first : testsText (negated :: tests) ++ rest =
              (testText negated).toList ++ (testsText tests ++ rest) := by
            simp [testsText]
          rw [first, untilNone, bind_of_eq (nullTest_testText negated _)]
          exact bind_of_eq (ih bound fewer)

theorem length_le_testsText (tests : List Bool) : tests.length ≤ (testsText tests).length := by
  induction tests with
  | nil => exact Nat.le_refl 0
  | cons negated tests ih =>
      have test : 0 < (testText negated).toList.length := by cases negated <;> decide
      simp only [testsText, List.flatMap_cons, List.length_append, List.length_cons] at ih ⊢
      omega

theorem many_nullTest (tests : List Bool) {rest : List Char} (ends : Ends rest) :
    many nullTest (testsText tests ++ rest) = some (tests, rest) := by
  have bound : tests.length ≤ (testsText tests ++ rest).length := by
    have length := length_le_testsText tests
    rw [List.length_append]
    omega
  rw [many_apply]
  exact untilNone_nullTest tests ends _ bound

/-! ## Reading terms -/

/-- Read a number. -/
def numeral : Scan Nat := do
  let digits ← span Char.isDigit
  return Nat.ofDigitChars 10 digits 0

/-- Read the symbol of an operator that is written between its operands, and the blank behind it. -/
def infixSymbol : Scan BinaryOp := do
  ofOption (← oneOf? BinaryOp.all fun op => op.symbol ++ " ")

namespace Reader

/-- Read a column: its scope, a point and its name. -/
def column : Scan Term := do
  word "t".toList
  let scope ← numeral
  word ".".toList
  let name ← span fun c => !endsName c
  return .column scope (String.ofList name)

def param : Scan Term := do
  word "@p".toList
  return .param (← numeral)

def null : Scan Term := do
  word "NULL".toList
  return .literal .null

def text : Scan Term := do
  return .literal (.text (← literal))

def number : Scan Term := do
  return .literal (.int (Int32.ofInt (← numeral)))

section Operands

variable (operand : Scan Term)

def enclosed : Scan Term := do
  word "(".toList
  let left ← operand
  word " ".toList
  let op ← infixSymbol
  let right ← operand
  word ")".toList
  return .binary op left right

def coalesce : Scan Term := do
  word "COALESCE(".toList
  let left ← operand
  word ", ".toList
  let right ← operand
  word ")".toList
  return .binary .coalesce left right

def caseWhen : Scan Term := do
  word "CASE WHEN ".toList
  let test ← operand
  word " THEN ".toList
  let ifTrue ← operand
  word " ELSE ".toList
  let ifFalse ← operand
  word " END".toList
  return .caseWhen test ifTrue ifFalse

/-- Read a negation, which is a word and its operand. -/
def negation (sign : String) (negated : Term → Term) : Scan Term := do
  word sign.toList
  return negated (← operand)

/-- Read a term without the null tests behind it; the first characters tell which form it has. -/
def primary : Scan Term := fun s =>
  match s with
  | 't' :: _ => column s
  | '@' :: _ => param s
  | '\'' :: _ => text s
  | '(' :: _ => enclosed operand s
  | '-' :: _ => negation operand "-" .negate s
  | 'C' :: 'O' :: _ => coalesce operand s
  | 'C' :: _ => caseWhen operand s
  | 'N' :: 'O' :: _ => negation operand "NOT " .not s
  | 'N' :: _ => null s
  | _ => number s

end Operands

/-- Read a term that is nested less deep than a bound, and the null tests behind it. -/
def term : Nat → Scan Term
  | 0 => refuse
  | bound + 1 => do
      let τ ← primary (term bound)
      let tests ← many nullTest
      return tests.foldl .isNull τ

end Reader

/-- The term that a text is read as.  No term is nested deeper than its text is long. -/
def Term.ofText? (s : String) : Option Term :=
  all? (Reader.term (s.toList.length + 1)) s.toList

/-! ## One term for each text -/

namespace Term

/-- A term whose text is that of the given one with null tests behind it: they belong to the operand of
the negations in front. -/
def tested : List Bool → Term → Term
  | tests, not operand => not (tested tests operand)
  | tests, negate operand => negate (tested tests operand)
  | tests, isNull operand negated => tested (negated :: tests) operand
  | tests, binary op left right => tests.foldl isNull (binary op (tested [] left) (tested [] right))
  | tests, caseWhen test ifTrue ifFalse =>
      tests.foldl isNull (caseWhen (tested [] test) (tested [] ifTrue) (tested [] ifFalse))
  | tests, τ => tests.foldl isNull τ

/-- The term that the text of a term is read as. -/
def reading (τ : Term) : Term :=
  tested [] τ

theorem text_isNull (τ : Term) (negated : Bool) : (isNull τ negated).text = τ.text ++ testText negated := by
  cases negated <;> rfl

theorem text_foldl_isNull (tests : List Bool) (τ : Term) :
    (tests.foldl isNull τ).text.toList = τ.text.toList ++ testsText tests := by
  induction tests generalizing τ with
  | nil => simp [testsText]
  | cons negated tests ih =>
      rw [List.foldl_cons, ih, text_isNull]
      simp [testsText]

theorem text_binary_congr {l l' r r' : Term} (op : BinaryOp) (hl : l'.text = l.text)
    (hr : r'.text = r.text) : (binary op l' r').text = (binary op l r).text := by
  cases op <;> simp only [text, hl, hr]

theorem text_eq_of_append {σ τ : Term} (h : σ.text.toList = τ.text.toList ++ testsText []) :
    σ.text = τ.text := by
  rw [← String.toList_inj, h]
  simp [testsText]

theorem text_tested (tests : List Bool) (τ : Term) :
    (tested tests τ).text.toList = τ.text.toList ++ testsText tests := by
  induction τ generalizing tests with
  | column | literal | param => exact text_foldl_isNull tests _
  | binary op l r ihl ihr =>
      have hl : (tested [] l).text = l.text := text_eq_of_append (ihl [])
      have hr : (tested [] r).text = r.text := text_eq_of_append (ihr [])
      rw [tested, text_foldl_isNull, text_binary_congr op hl hr]
  | not operand ih => simp [tested, text, ih]
  | negate operand ih => simp [tested, text, ih]
  | isNull operand negated ih =>
      rw [tested, ih, text_isNull]
      simp [testsText]
  | caseWhen test ifTrue ifFalse iht iha ihb =>
      have ht : (tested [] test).text = test.text := text_eq_of_append (iht [])
      have ha : (tested [] ifTrue).text = ifTrue.text := text_eq_of_append (iha [])
      have hb : (tested [] ifFalse).text = ifFalse.text := text_eq_of_append (ihb [])
      rw [tested, text_foldl_isNull]
      simp only [text, ht, ha, hb]

/-- The reading of a term is written like the term. -/
theorem text_reading (τ : Term) : τ.reading.text = τ.text := by
  exact text_eq_of_append (text_tested [] τ)

section Subterms

variable {P : Term → Prop} {op : BinaryOp} {τ l r c : Term} {negated : Bool}

theorem forall_subterms_binary : (∀ σ ∈ (binary op l r).subterms, P σ) ↔
    P (binary op l r) ∧ (∀ σ ∈ l.subterms, P σ) ∧ ∀ σ ∈ r.subterms, P σ := by
  rw [subterms, List.forall_mem_cons, List.forall_mem_append]

theorem forall_subterms_not : (∀ σ ∈ (not τ).subterms, P σ) ↔ P (not τ) ∧ ∀ σ ∈ τ.subterms, P σ := by
  rw [subterms, List.forall_mem_cons]

theorem forall_subterms_negate :
    (∀ σ ∈ (negate τ).subterms, P σ) ↔ P (negate τ) ∧ ∀ σ ∈ τ.subterms, P σ := by
  rw [subterms, List.forall_mem_cons]

theorem forall_subterms_isNull : (∀ σ ∈ (isNull τ negated).subterms, P σ) ↔
    P (isNull τ negated) ∧ ∀ σ ∈ τ.subterms, P σ := by
  rw [subterms, List.forall_mem_cons]

theorem forall_subterms_caseWhen : (∀ σ ∈ (caseWhen c l r).subterms, P σ) ↔
    P (caseWhen c l r) ∧ (∀ σ ∈ c.subterms, P σ) ∧ (∀ σ ∈ l.subterms, P σ) ∧
      ∀ σ ∈ r.subterms, P σ := by
  rw [subterms, List.forall_mem_cons, List.forall_mem_append, List.forall_mem_append, and_assoc]

end Subterms

/-- Whether a term that is a leaf has a text of its own: the name of a column does not end early, and a
literal is a text, a number that is not negative, or null. -/
def isPlainLeaf : Term → Bool
  | column _ name => name.toList.all fun c => !endsName c
  | literal .null | literal (.text _) => true
  | literal (.int v) => decide (0 ≤ v.toInt)
  | literal _ => false
  | _ => true

/-- A term whose leaves have texts of their own. -/
def Plain (τ : Term) : Prop :=
  ∀ σ ∈ τ.subterms, σ.isPlainLeaf = true

/-- How deep a term is nested, null tests not counted. -/
def depth : Term → Nat
  | column _ _ | literal _ | param _ => 0
  | binary _ left right => max left.depth right.depth + 1
  | not operand | negate operand => operand.depth + 1
  | isNull operand _ => operand.depth
  | caseWhen test ifTrue ifFalse => max test.depth (max ifTrue.depth ifFalse.depth) + 1

theorem depth_le_length (τ : Term) : τ.depth ≤ τ.text.toList.length := by
  induction τ with
  | column | literal | param => exact Nat.zero_le _
  | binary op l r ihl ihr =>
      by_cases coalesce : op = .coalesce
      · subst coalesce
        simp only [depth, text, String.toList_append, List.length_append]
        have word : "COALESCE(".toList.length = 9 := rfl
        omega
      · rw [text_binary coalesce]
        simp only [depth, String.toList_append, List.length_append]
        have word : "(".toList.length = 1 := rfl
        omega
  | not operand ih =>
      simp only [depth, text, String.toList_append, List.length_append]
      have word : "NOT ".toList.length = 4 := rfl
      omega
  | negate operand ih =>
      simp only [depth, text, String.toList_append, List.length_append]
      have word : "-".toList.length = 1 := rfl
      omega
  | isNull operand negated ih =>
      rw [text_isNull, String.toList_append, List.length_append]
      exact Nat.le_add_right_of_le ih
  | caseWhen test ifTrue ifFalse iht iha ihb =>
      simp only [depth, text, String.toList_append, List.length_append]
      have word : "CASE WHEN ".toList.length = 10 := rfl
      omega

end Term

/-! ## Terms are read as their reading -/

theorem numeral_append (n : Nat) {rest : List Char} (ends : ∀ c ∈ rest.head?, c.isDigit = false) :
    numeral ((toString n).toList ++ rest) = some (n, rest) := by
  rw [Nat.toString_eq_ofList_toDigits, String.toList_ofList, numeral,
    bind_of_eq (span_append (fun _ => isDigit_of_mem_digits) ends), Nat.ofDigitChars_ten_toDigits]
  rfl

theorem Bounded.not_isDigit {rest : List Char} (ends : Bounded rest) :
    ∀ c ∈ rest.head?, c.isDigit = false := by
  intro c hc
  have stop : endsName c = true := ends c hc
  simp only [endsName, Bool.or_eq_true, beq_iff_eq] at stop
  rcases stop with (rfl | rfl) | rfl <;> rfl

theorem Bounded.not_quote {rest : List Char} (ends : Bounded rest) : rest.head? ≠ some '\'' := by
  intro quote
  have stop := ends _ quote
  cases stop

theorem infixSymbol_append (op : BinaryOp) (rest : List Char) :
    infixSymbol ((op.symbol ++ " ").toList ++ rest) = some (op, rest) := by
  have free : PrefixFree BinaryOp.all fun op => op.symbol ++ " " := by
    unfold PrefixFree
    decide
  have known : op ∈ BinaryOp.all := by cases op <;> decide
  exact bind_of_eq (oneOf?_append free known rest)

namespace Reader

/-- A scan that reads a term and the null tests behind it. -/
def Reads (scan : Scan Term) (τ : Term) : Prop :=
  ∀ tests rest, Ends rest →
    scan (τ.text.toList ++ (testsText tests ++ rest)) = some (τ.tested tests, rest)

theorem Reads.append {scan : Scan Term} {τ : Term} (h : Reads scan τ) {rest : List Char}
    (ends : Ends rest) : scan (τ.text.toList ++ rest) = some (τ.reading, rest) :=
  h [] rest ends

theorem term_succ {bound : Nat} {s rest : List Char} {τ : Term} {tests : List Bool} (ends : Ends rest)
    (h : primary (term bound) s = some (τ, testsText tests ++ rest)) :
    term (bound + 1) s = some (tests.foldl .isNull τ, rest) := by
  rw [term, bind_of_eq h, bind_of_eq (many_nullTest tests ends)]
  rfl

/-- A term that is no negation is read if it can be read without the null tests behind it. -/
theorem reads_of_primary {bound : Nat} {τ σ : Term}
    (reading : ∀ tests, τ.tested tests = tests.foldl .isNull σ)
    (h : ∀ rest, Bounded rest → primary (term bound) (τ.text.toList ++ rest) = some (σ, rest)) :
    Reads (term (bound + 1)) τ := by
  intro tests rest ends
  rw [reading]
  exact term_succ ends (h _ (bounded_testsText tests ends.bounded))

section Leaves

variable {bound : Nat}

theorem reads_column {scope : Nat} {name : String}
    (plain : (Term.column scope name).isPlainLeaf = true) :
    Reads (term (bound + 1)) (.column scope name) := by
  refine reads_of_primary (fun _ => rfl) fun rest ends => ?_
  have written : (Term.column scope name).text.toList ++ rest =
      "t".toList ++ ((toString scope).toList ++ (".".toList ++ (name.toList ++ rest))) := by
    simp [Term.text, Term.scopeName]
  have inside : ∀ c ∈ name.toList, (!endsName c) = true := by simpa [Term.isPlainLeaf] using plain
  have outside : ∀ c ∈ rest.head?, (!endsName c) = false := by simpa [Bounded] using ends
  -- The point ends the number of the scope, and what follows the term ends the name.
  have point : ∀ c ∈ (".".toList ++ (name.toList ++ rest)).head?, c.isDigit = false := by
    simp
  rw [written]
  change column _ = _
  rw [column, bind_of_eq (word_append _ _), bind_of_eq (numeral_append scope point),
    bind_of_eq (word_append _ _), bind_of_eq (span_append inside outside), String.ofList_toList]
  rfl

theorem reads_param (index : Nat) : Reads (term (bound + 1)) (.param index) := by
  refine reads_of_primary (fun _ => rfl) fun rest ends => ?_
  have written : (Term.param index).text.toList ++ rest =
      "@p".toList ++ ((toString index).toList ++ rest) := by
    simp [Term.text]
  rw [written]
  change param _ = _
  rw [param, bind_of_eq (word_append _ _), bind_of_eq (numeral_append index ends.not_isDigit)]
  rfl

theorem reads_null : Reads (term (bound + 1)) (.literal .null) := by
  refine reads_of_primary (fun _ => rfl) fun rest _ => ?_
  change null ("NULL".toList ++ rest) = _
  rw [null, bind_of_eq (word_append _ _)]
  rfl

theorem reads_text (s : String) : Reads (term (bound + 1)) (.literal (.text s)) := by
  refine reads_of_primary (fun _ => rfl) fun rest ends => ?_
  have quoted : primary (term bound) ((Term.literal (.text s)).text.toList ++ rest) =
      text ((Value.quoteText s).toList ++ rest) := by
    change primary (term bound) ((Value.quoteText s).toList ++ rest) = _
    rw [quoteText_append]
    rfl
  rw [quoted, text, bind_of_eq (literal_quoteText s ends.not_quote)]
  rfl

/-- A number starts with none of the characters that other terms start with. -/
theorem primary_digit (operand : Scan Term) {c : Char} (digit : c.isDigit = true) (rest : List Char) :
    primary operand (c :: rest) = number (c :: rest) := by
  unfold primary
  split <;> first | rfl | (rename_i h; cases h; cases digit)

theorem reads_number {v : Int32} (plain : (Term.literal (.int v)).isPlainLeaf = true) :
    Reads (term (bound + 1)) (.literal (.int v)) := by
  refine reads_of_primary (fun _ => rfl) fun rest ends => ?_
  have nonneg : 0 ≤ v.toInt := by simpa [Term.isPlainLeaf] using plain
  have written : (Term.literal (.int v)).text = toString v.toInt.toNat := by
    change toString v.toInt = _
    rw [← Int.toNat_of_nonneg nonneg]
    rfl
  have first : primary (term bound) ((toString v.toInt.toNat).toList ++ rest) =
      number ((toString v.toInt.toNat).toList ++ rest) := by
    rw [Nat.toString_eq_ofList_toDigits, String.toList_ofList]
    cases h : Nat.toDigits 10 v.toInt.toNat with
    | nil => exact absurd h Nat.toDigits_ne_nil
    | cons c others => exact primary_digit _ (isDigit_of_mem_digits (h ▸ List.mem_cons_self)) _
  rw [written, first, number, bind_of_eq (numeral_append _ ends.not_isDigit),
    Int.toNat_of_nonneg nonneg, Int32.ofInt_toInt]
  rfl

end Leaves

section Operands

variable {bound : Nat}

theorem reads_infix {op : BinaryOp} {l r : Term} (infixed : op ≠ .coalesce)
    (hl : Reads (term bound) l) (hr : Reads (term bound) r) :
    Reads (term (bound + 1)) (.binary op l r) := by
  refine reads_of_primary (fun _ => rfl) fun rest _ => ?_
  have written : (Term.binary op l r).text.toList ++ rest =
      "(".toList ++ (l.text.toList ++ (" ".toList ++ ((op.symbol ++ " ").toList ++
        (r.text.toList ++ (")".toList ++ rest))))) := by
    rw [Term.text_binary infixed]
    simp
  -- A blank may start a null test as well; the symbol behind it tells them apart.
  have afterLeft : Ends (" ".toList ++ ((op.symbol ++ " ").toList ++
      (r.text.toList ++ (")".toList ++ rest)))) := by
    have apart : Ends ((" " ++ (op.symbol ++ " ")).toList ++ (r.text.toList ++ (")".toList ++ rest))) :=
      .word (by cases op <;> decide) (by cases op <;> decide) _
    simpa using apart
  have afterRight : Ends (")".toList ++ rest) := .word (by decide) (by decide) rest
  rw [written]
  change enclosed (term bound) _ = _
  rw [enclosed, bind_of_eq (word_append _ _), bind_of_eq (hl.append afterLeft),
    bind_of_eq (word_append _ _), bind_of_eq (infixSymbol_append op _),
    bind_of_eq (hr.append afterRight), bind_of_eq (word_append _ _)]
  rfl

theorem reads_coalesce {l r : Term} (hl : Reads (term bound) l) (hr : Reads (term bound) r) :
    Reads (term (bound + 1)) (.binary .coalesce l r) := by
  refine reads_of_primary (fun _ => rfl) fun rest _ => ?_
  have written : (Term.binary .coalesce l r).text.toList ++ rest =
      "COALESCE(".toList ++ (l.text.toList ++ (", ".toList ++ (r.text.toList ++
        (")".toList ++ rest)))) := by
    simp [Term.text]
  have afterLeft : Ends (", ".toList ++ (r.text.toList ++ (")".toList ++ rest))) :=
    .word (by decide) (by decide) _
  have afterRight : Ends (")".toList ++ rest) := .word (by decide) (by decide) rest
  rw [written]
  change coalesce (term bound) _ = _
  rw [coalesce, bind_of_eq (word_append _ _), bind_of_eq (hl.append afterLeft),
    bind_of_eq (word_append _ _), bind_of_eq (hr.append afterRight), bind_of_eq (word_append _ _)]
  rfl

theorem reads_caseWhen {test ifTrue ifFalse : Term} (ht : Reads (term bound) test)
    (ha : Reads (term bound) ifTrue) (hb : Reads (term bound) ifFalse) :
    Reads (term (bound + 1)) (.caseWhen test ifTrue ifFalse) := by
  refine reads_of_primary (fun _ => rfl) fun rest _ => ?_
  have written : (Term.caseWhen test ifTrue ifFalse).text.toList ++ rest =
      "CASE WHEN ".toList ++ (test.text.toList ++ (" THEN ".toList ++ (ifTrue.text.toList ++
        (" ELSE ".toList ++ (ifFalse.text.toList ++ (" END".toList ++ rest)))))) := by
    simp [Term.text]
  have afterTest : Ends (" THEN ".toList ++ (ifTrue.text.toList ++ (" ELSE ".toList ++
      (ifFalse.text.toList ++ (" END".toList ++ rest))))) := .word (by decide) (by decide) _
  have afterTrue : Ends (" ELSE ".toList ++ (ifFalse.text.toList ++ (" END".toList ++ rest))) :=
    .word (by decide) (by decide) _
  have afterFalse : Ends (" END".toList ++ rest) := .word (by decide) (by decide) rest
  rw [written]
  change caseWhen (term bound) _ = _
  rw [caseWhen, bind_of_eq (word_append _ _), bind_of_eq (ht.append afterTest),
    bind_of_eq (word_append _ _), bind_of_eq (ha.append afterTrue), bind_of_eq (word_append _ _),
    bind_of_eq (hb.append afterFalse), bind_of_eq (word_append _ _)]
  rfl

/-- The operand of a negation takes the null tests behind it. -/
theorem reads_negation {sign : String} {negated : Term → Term} {operand : Term}
    (written : (negated operand).text = sign ++ operand.text)
    (tested : ∀ tests, (negated operand).tested tests = negated (operand.tested tests))
    (started : ∀ s, primary (term bound) (sign.toList ++ s) =
      negation (term bound) sign negated (sign.toList ++ s))
    (h : Reads (term bound) operand) : Reads (term (bound + 1)) (negated operand) := by
  intro tests rest ends
  have read : primary (term bound) ((negated operand).text.toList ++ (testsText tests ++ rest)) =
      some (negated (operand.tested tests), testsText [] ++ rest) := by
    rw [written, String.toList_append, List.append_assoc, started, negation,
      bind_of_eq (word_append _ _), bind_of_eq (h tests rest ends)]
    rfl
  rw [tested]
  exact term_succ ends read

/-- A null test is one more test behind its operand. -/
theorem reads_isNull {operand : Term} {negated : Bool} (h : Reads (term bound) operand) :
    Reads (term bound) (.isNull operand negated) := by
  intro tests rest ends
  have written : (Term.isNull operand negated).text.toList ++ (testsText tests ++ rest) =
      operand.text.toList ++ (testsText (negated :: tests) ++ rest) := by
    rw [Term.text_isNull]
    simp [testsText]
  rw [written]
  exact h (negated :: tests) rest ends

end Operands

/-- A plain term is read as its reading, whatever null tests stand behind it. -/
theorem reads_of_plain {τ : Term} (plain : τ.Plain) {bound : Nat} (deep : τ.depth ≤ bound) :
    Reads (term (bound + 1)) τ := by
  induction τ generalizing bound with
  | column scope name => exact reads_column (plain _ (by simp [Term.subterms]))
  | literal value =>
      have leaf : (Term.literal value).isPlainLeaf = true := plain _ (by simp [Term.subterms])
      cases value with
      | null => exact reads_null
      | text s => exact reads_text s
      | int v => exact reads_number leaf
      | bool | long | float | closure | table => cases leaf
  | param index => exact reads_param index
  | binary op l r ihl ihr =>
      simp only [Term.depth] at deep
      -- Operands are read with a smaller bound, which is not exhausted yet.
      obtain ⟨bound, rfl⟩ : ∃ below, bound = below + 1 := ⟨bound - 1, by omega⟩
      obtain ⟨-, plainl, plainr⟩ := Term.forall_subterms_binary.1 plain
      have hl : Reads (term (bound + 1)) l := ihl plainl (by omega)
      have hr : Reads (term (bound + 1)) r := ihr plainr (by omega)
      by_cases infixed : op = .coalesce
      · subst infixed
        exact reads_coalesce hl hr
      · exact reads_infix infixed hl hr
  | not operand ih =>
      simp only [Term.depth] at deep
      obtain ⟨bound, rfl⟩ : ∃ below, bound = below + 1 := ⟨bound - 1, by omega⟩
      exact reads_negation rfl (fun _ => rfl) (fun _ => rfl)
        (ih (Term.forall_subterms_not.1 plain).2 (by omega))
  | negate operand ih =>
      simp only [Term.depth] at deep
      obtain ⟨bound, rfl⟩ : ∃ below, bound = below + 1 := ⟨bound - 1, by omega⟩
      exact reads_negation rfl (fun _ => rfl) (fun _ => rfl)
        (ih (Term.forall_subterms_negate.1 plain).2 (by omega))
  | isNull operand negated ih =>
      -- The operand is read by the same call, with one more test behind it.
      exact reads_isNull (ih (Term.forall_subterms_isNull.1 plain).2 deep)
  | caseWhen test ifTrue ifFalse iht iha ihb =>
      simp only [Term.depth] at deep
      obtain ⟨bound, rfl⟩ : ∃ below, bound = below + 1 := ⟨bound - 1, by omega⟩
      obtain ⟨-, plaint, plaina, plainb⟩ := Term.forall_subterms_caseWhen.1 plain
      have ht : Reads (term (bound + 1)) test := iht plaint (by omega)
      have ha : Reads (term (bound + 1)) ifTrue := iha plaina (by omega)
      have hb : Reads (term (bound + 1)) ifFalse := ihb plainb (by omega)
      exact reads_caseWhen ht ha hb

end Reader

/-- The text of a plain term is read as the term's reading. -/
theorem ofText?_text {τ : Term} (plain : τ.Plain) : Term.ofText? τ.text = some τ.reading := by
  have reads := Reader.reads_of_plain plain τ.depth_le_length
  have read : Reader.term (τ.text.toList.length + 1) τ.text.toList = some (τ.reading, []) := by
    simpa using reads.append Ends.nil
  rw [Term.ofText?, all?, read]

/-! ## Terms of one text -/

namespace Term

/-- Whether a term is a negation, logical or numerical. -/
def isNegation : Term → Bool
  | not _ | negate _ => true
  | _ => false

/-- Whether a term is a null test of a negation. -/
def testsNegation : Term → Bool
  | isNull operand _ => operand.isNegation
  | _ => false

/-- No null test in the term is applied to a negation. -/
def TestsApart (τ : Term) : Prop :=
  ∀ σ ∈ τ.subterms, σ.testsNegation = false

/-- Unless null tests stand behind a negation, they are applied to what stands in front of them. -/
theorem tested_eq_foldl {τ : Term} (apart : τ.TestsApart) {tests : List Bool}
    (front : tests = [] ∨ τ.isNegation = false) : tested tests τ = tests.foldl isNull τ := by
  induction τ generalizing tests with
  | column | literal | param => rfl
  | binary op l r ihl ihr =>
      obtain ⟨-, apartl, apartr⟩ := forall_subterms_binary.1 apart
      have hl : tested [] l = l := ihl apartl (.inl rfl)
      have hr : tested [] r = r := ihr apartr (.inl rfl)
      rw [tested, hl, hr]
  | not operand ih =>
      -- Tests behind a negation would have moved into it.
      obtain rfl : tests = [] := front.resolve_right (by simp [isNegation])
      have same : tested [] operand = operand := ih (forall_subterms_not.1 apart).2 (.inl rfl)
      rw [tested, same]
      rfl
  | negate operand ih =>
      obtain rfl : tests = [] := front.resolve_right (by simp [isNegation])
      have same : tested [] operand = operand := ih (forall_subterms_negate.1 apart).2 (.inl rfl)
      rw [tested, same]
      rfl
  | isNull operand negated ih =>
      obtain ⟨positive, inside⟩ := forall_subterms_isNull.1 apart
      rw [tested]
      exact ih inside (.inr positive)
  | caseWhen test ifTrue ifFalse iht iha ihb =>
      obtain ⟨-, apartt, aparta, apartb⟩ := forall_subterms_caseWhen.1 apart
      have ht : tested [] test = test := iht apartt (.inl rfl)
      have ha : tested [] ifTrue = ifTrue := iha aparta (.inl rfl)
      have hb : tested [] ifFalse = ifFalse := ihb apartb (.inl rfl)
      rw [tested, ht, ha, hb]

theorem reading_eq_self {τ : Term} (apart : τ.TestsApart) : τ.reading = τ :=
  tested_eq_foldl apart (.inl rfl)

end Term

/-- Plain terms are read back from their text up to the order of negations and the null tests behind
them: two of them are written alike exactly when their readings are equal.  If neither of them tests a
negation for null, they are the same term. -/
theorem text_eq_iff_reading_eq {a b : Term} (ha : a.Plain) (hb : b.Plain) :
    Term.ofText? a.text = some a.reading ∧ (a.text = b.text ↔ a.reading = b.reading) ∧
      (a.TestsApart → b.TestsApart → a.text = b.text → a = b) := by
  have readings : a.text = b.text ↔ a.reading = b.reading := by
    constructor
    · intro same
      have read : some a.reading = some b.reading :=
        calc some a.reading = Term.ofText? a.text := (ofText?_text ha).symm
          _ = Term.ofText? b.text := by rw [same]
          _ = some b.reading := ofText?_text hb
      exact Option.some.inj read
    · intro same
      calc a.text = a.reading.text := a.text_reading.symm
        _ = b.reading.text := by rw [same]
        _ = b.text := b.text_reading
  refine ⟨ofText?_text ha, readings, ?_⟩
  intro aparta apartb same
  calc a = a.reading := (Term.reading_eq_self aparta).symm
    _ = b.reading := readings.1 same
    _ = b := Term.reading_eq_self apartb

/-- A case distinction that shows words of the language is read back as it is. -/
def Sample.unknownAge : Term :=
  .caseWhen (.isNull (.column 0 "age") false) (.literal (.text "0 END IS NULL"))
    (.negate (.binary .coalesce (.column 0 "age") (.literal (.int 1))))

theorem unknownAge_read_back :
    Term.ofText? Sample.unknownAge.text = some Sample.unknownAge.reading ∧
      Sample.unknownAge.reading = Sample.unknownAge := by
  have plain : Sample.unknownAge.Plain ∧ Sample.unknownAge.reading.Plain := by
    unfold Term.Plain
    decide
  have apart : Sample.unknownAge.TestsApart ∧ Sample.unknownAge.reading.TestsApart := by
    unfold Term.TestsApart
    decide
  have known := text_eq_iff_reading_eq plain.2 plain.1
  have same := known.2.2 apart.2 apart.1 Sample.unknownAge.text_reading
  exact ⟨(text_eq_iff_reading_eq plain.1 plain.2).1, same⟩

/-- The null test of a negation is written like the negation of a null test. -/
theorem null_test_of_negation_ambiguous :
    ¬ ∀ a b : Term, a.Plain → b.Plain → a.text = b.text → a = b := by
  intro claimed
  have plain : (Term.isNull (.not (.column 0 "age")) false).Plain ∧
      (Term.not (.isNull (.column 0 "age") false)).Plain := by
    unfold Term.Plain
    decide
  have alike : (Term.isNull (.not (.column 0 "age")) false).text =
      (Term.not (.isNull (.column 0 "age") false)).text := by
    simp only [Term.text, String.append_assoc]
  have same := claimed _ _ plain.1 plain.2 alike
  cases same

end Sql

end QueryPlan
