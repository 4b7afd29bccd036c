import QueryPlan.Proofs.Compile.Scoping
import QueryPlan.Text.Scan

/-!
# Literals — inlined texts are read back from query text

A text literal is written between quotes with inner quotes doubled, so it ends at the first quote that
is not followed by another one.  What follows a literal in the text of a query never starts with a
quote: it is a blank, a bracket, a comma or the end.  A reader that skips to the next quote, reads one
literal and goes on therefore finds the inlined texts and nothing else, whatever they contain.

`Written s texts` says that a text is such a sequence of literals and other characters.  It is closed
under concatenation if the second part starts with no quote, which is what `Fragment` carries through
terms, clauses and scopes.
-/

namespace QueryPlan

/-! ## Running scans -/

namespace Scan

variable {α β : Type}

theorem bind_of_eq {x : Scan α} {f : α → Scan β} {a : α} {s rest : List Char}
    (h : x s = some (a, rest)) : (x >>= f) s = f a rest := by
  change (x s).bind (fun found => f found.1 found.2) = f a rest
  rw [h]
  rfl

theorem expect_cons (c : Char) (rest : List Char) : expect c (c :: rest) = some ((), rest) := by
  have read : accept c (c :: rest) = some (true, rest) := by simp [accept]
  exact bind_of_eq read

theorem many_apply (step : Scan (Option α)) (s : List Char) : many step s = untilNone step s s :=
  rfl

/-- A step that gives the same on two texts is repeated alike on both. -/
theorem untilNone_congr {step : Scan (Option α)} {s s' : List Char} (h : step s = step s')
    (bound : List Char) : untilNone step bound s = untilNone step bound s' := by
  have same : ∀ f : Option α → Scan (List α), (step >>= f) s = (step >>= f) s' := by
    intro f
    change (step s).bind _ = (step s').bind _
    rw [h]
  cases bound with
  | nil => exact same _
  | cons _ bound => exact same _

end Scan

namespace Sql

open Scan

/-! ## Reading literals -/

/-- Read a text literal behind its opening quote: a doubled quote stands for one, and the first
undoubled quote ends the literal. -/
def literalBody : Scan (List Char)
  | [] => none
  | c :: rest =>
      if c = '\'' then
        match rest with
        | [] => some ([], [])
        | d :: others =>
            if d = '\'' then
              (literalBody others).map fun read => ('\'' :: read.1, read.2)
            else
              some ([], d :: others)
      else
        (literalBody rest).map fun read => (c :: read.1, read.2)

/-- Read a text literal. -/
def literal : Scan String := do
  expect '\''
  let body ← literalBody
  return String.ofList body

/-- Skip to the next text literal and read it, if there is one. -/
def nextLiteral : Scan (Option String) := do
  let _ ← span (· != '\'')
  match ← peek? with
  | none => return none
  | some _ => return some (← literal)

/-- The text literals of a text, in order. -/
def literals? (s : List Char) : Option (List String) :=
  all? (many nextLiteral) s

theorem literalBody_cons {c : Char} (notQuote : c ≠ '\'') (rest : List Char) :
    literalBody (c :: rest) = (literalBody rest).map fun read => (c :: read.1, read.2) := by
  rw [literalBody.eq_def]
  simp only [notQuote, if_false]

theorem literalBody_escapeQuotes (body : List Char) {rest : List Char}
    (ends : rest.head? ≠ some '\'') :
    literalBody (Value.escapeQuotes body ++ '\'' :: rest) = some (body, rest) := by
  induction body with
  | nil =>
      cases rest with
      | nil => simp [Value.escapeQuotes, literalBody]
      | cons d others =>
          have notQuote : d ≠ '\'' := by simpa using ends
          simp [Value.escapeQuotes, literalBody, notQuote]
  | cons c body ih =>
      by_cases quote : c = '\''
      · simp [Value.escapeQuotes, literalBody, quote, ih]
      · simp [Value.escapeQuotes, literalBody_cons quote, quote, ih]

theorem quoteText_append (s : String) (rest : List Char) : (Value.quoteText s).toList ++ rest =
    '\'' :: (Value.escapeQuotes s.toList ++ '\'' :: rest) := by
  simp [Value.quoteText]

/-- The literal of a text is read as the text, up to what follows. -/
theorem literal_quoteText (s : String) {rest : List Char} (ends : rest.head? ≠ some '\'') :
    literal ((Value.quoteText s).toList ++ rest) = some (s, rest) := by
  rw [quoteText_append, literal, bind_of_eq (expect_cons _ _),
    bind_of_eq (literalBody_escapeQuotes s.toList ends), String.ofList_toList]
  rfl

/-- A text with the given literals, each of which ends where no quote follows. -/
inductive Written : List Char → List String → Prop where
  | nil : Written [] []
  | plain {c : Char} {rest : List Char} {texts : List String} (notQuote : c ≠ '\'')
      (others : Written rest texts) : Written (c :: rest) texts
  | literal {s : String} {rest : List Char} {texts : List String} (ends : rest.head? ≠ some '\'')
      (others : Written rest texts) : Written ((Value.quoteText s).toList ++ rest) (s :: texts)

theorem nextLiteral_plain {c : Char} (notQuote : c ≠ '\'') (rest : List Char) :
    nextLiteral (c :: rest) = nextLiteral rest := by
  have skipped : span (· != '\'') (c :: rest) =
      some (c :: rest.takeWhile (· != '\''), rest.dropWhile (· != '\'')) := by
    simp [span, notQuote]
  have read : span (· != '\'') rest =
      some (rest.takeWhile (· != '\''), rest.dropWhile (· != '\'')) := rfl
  rw [nextLiteral, bind_of_eq skipped, bind_of_eq read]

theorem nextLiteral_quoteText (s : String) {rest : List Char} (ends : rest.head? ≠ some '\'') :
    nextLiteral ((Value.quoteText s).toList ++ rest) = some (some s, rest) := by
  have skipped : span (· != '\'') ((Value.quoteText s).toList ++ rest) =
      some ([], (Value.quoteText s).toList ++ rest) := by
    simp [span, quoteText_append]
  have quote : peek? ((Value.quoteText s).toList ++ rest) =
      some (some '\'', (Value.quoteText s).toList ++ rest) := by
    rw [quoteText_append]
    rfl
  rw [nextLiteral, bind_of_eq skipped, bind_of_eq quote]
  exact bind_of_eq (literal_quoteText s ends)

namespace Written

theorem skip {s rest : List Char} {texts : List String} (plain : '\'' ∉ s) (h : Written rest texts) :
    Written (s ++ rest) texts := by
  induction s with
  | nil => exact h
  | cons c s ih =>
      simp only [List.mem_cons, not_or] at plain
      exact .plain (Ne.symm plain.1) (ih plain.2)

theorem length_le {s : List Char} {texts : List String} (h : Written s texts) :
    texts.length ≤ s.length := by
  induction h with
  | nil => exact Nat.le_refl 0
  | plain _ _ ih => exact Nat.le_succ_of_le ih
  | literal _ _ ih =>
      simp only [Value.quoteText, String.toList_append, List.length_append, List.length_cons]
      have quote : "'".toList.length = 1 := rfl
      omega

theorem untilNone_eq {s : List Char} {texts : List String} (h : Written s texts) :
    ∀ bound : List Char, texts.length ≤ bound.length →
      untilNone nextLiteral bound s = some (texts, []) := by
  induction h with
  | nil =>
      intro bound _
      cases bound <;> rfl
  | plain notQuote others ih =>
      -- The same literal is next behind a character that is skipped.
      intro bound hbound
      rw [untilNone_congr (nextLiteral_plain notQuote _) bound]
      exact ih bound hbound
  | @literal s rest texts ends others ih =>
      intro bound hbound
      cases bound with
      | nil => simp at hbound
      | cons _ bound =>
          have fewer : texts.length ≤ bound.length := by simpa using hbound
          rw [untilNone, bind_of_eq (nextLiteral_quoteText s ends)]
          exact bind_of_eq (ih bound fewer)

/-- The literals of a text are found by reading them one after the other. -/
theorem literals?_eq {s : List Char} {texts : List String} (h : Written s texts) :
    literals? s = some texts := by
  have found : many nextLiteral s = some (texts, []) := by
    rw [many_apply]
    exact h.untilNone_eq s h.length_le
  rw [literals?, all?, found]

end Written

/-! ## Fragments -/

/-- A text without quotes. -/
def QuoteFree (s : String) : Prop :=
  '\'' ∉ s.toList

instance (s : String) : Decidable (QuoteFree s) :=
  inferInstanceAs (Decidable (¬ '\'' ∈ s.toList))

/-- A part of a text that contributes the given literals wherever no quote follows it. -/
def Fragment (s : String) (texts : List String) : Prop :=
  ∀ rest others, rest.head? ≠ some '\'' → Written rest others →
    Written (s.toList ++ rest) (texts ++ others)

namespace Fragment

variable {a b sep : String} {texts texts' : List String}

theorem written (h : Fragment a texts) : Written a.toList texts := by
  simpa using h [] [] (by simp) .nil

theorem literal (s : String) : Fragment (Value.quoteText s) [s] :=
  fun _ _ ends others => .literal ends others

theorem ofQuoteFree (plain : QuoteFree a) : Fragment a [] :=
  fun _ _ _ written => written.skip plain

/-- A part may follow another one if it starts with no quote. -/
theorem append (ha : Fragment a texts) (hb : Fragment b texts') (starts : b.toList.head? ≠ some '\'') :
    Fragment (a ++ b) (texts ++ texts') := by
  intro rest others ends written
  have ends' : (b.toList ++ rest).head? ≠ some '\'' := by
    cases h : b.toList with
    | nil => simpa using ends
    | cons c s => simpa [h] using starts
  rw [String.toList_append, List.append_assoc, List.append_assoc]
  exact ha _ _ ends' (hb rest others ends written)

theorem starts_of_quoteFree (plain : QuoteFree a) : a.toList.head? ≠ some '\'' :=
  fun h => plain (List.mem_of_head? h)

/-- Anything may follow characters that are no literal. -/
theorem prefixed (plain : QuoteFree a) (hb : Fragment b texts) : Fragment (a ++ b) texts := by
  intro rest others ends written
  rw [String.toList_append, List.append_assoc]
  exact (hb rest others ends written).skip plain

theorem suffixed (ha : Fragment a texts) (plain : QuoteFree b) : Fragment (a ++ b) texts := by
  simpa using ha.append (ofQuoteFree plain) (starts_of_quoteFree plain)

theorem starts_prefixed (plain : QuoteFree a) (nonempty : a ≠ "") (b : String) :
    (a ++ b).toList.head? ≠ some '\'' := by
  have starts : a.toList.head? ≠ some '\'' := starts_of_quoteFree plain
  cases h : a.toList with
  | nil => exact absurd (String.toList_eq_nil_iff.1 h) nonempty
  | cons c s => simpa [h] using starts

/-- Parts between which something other than a literal stands. -/
theorem separated (ha : Fragment a texts) (plain : QuoteFree sep) (nonempty : sep ≠ "")
    (hb : Fragment b texts') : Fragment (a ++ (sep ++ b)) (texts ++ texts') :=
  ha.append (hb.prefixed plain) (starts_prefixed plain nonempty b)

theorem intercalate {α : Type} {text : α → String} {texts : α → List String} {items : List α}
    (plain : QuoteFree sep) (nonempty : sep ≠ "")
    (each : ∀ item ∈ items, Fragment (text item) (texts item)) :
    Fragment (sep.intercalate (items.map text)) (items.flatMap texts) := by
  induction items with
  | nil => exact ofQuoteFree (a := "") (by decide)
  | cons item items ih =>
      rw [List.forall_mem_cons] at each
      cases items with
      | nil => simpa using each.1
      | cons next items =>
          rw [List.map_cons, List.map_cons, String.intercalate_cons_cons, String.append_assoc]
          exact each.1.separated plain nonempty (ih each.2)

end Fragment

/-! ## Values -/

theorem quoteFree_append {a b : String} : QuoteFree (a ++ b) ↔ QuoteFree a ∧ QuoteFree b := by
  simp [QuoteFree]

theorem isDigit_of_mem_digits {n : Nat} {c : Char} (hc : c ∈ Nat.toDigits 10 n) : c.isDigit = true :=
  Nat.isDigit_of_mem_toDigits (by decide) (by decide) hc

theorem quoteFree_digits (n : Nat) : '\'' ∉ Nat.toDigits 10 n := by
  intro quote
  have digit := isDigit_of_mem_digits quote
  cases digit

theorem quoteFree_repr (n : Nat) : QuoteFree (toString n) := by
  rw [QuoteFree, Nat.toString_eq_ofList_toDigits, String.toList_ofList]
  exact quoteFree_digits n

theorem quoteFree_int (n : Int) : QuoteFree (toString n) := by
  cases n with
  | ofNat n => exact quoteFree_repr n
  | negSucc n => exact quoteFree_append.2 ⟨by decide, quoteFree_repr (n + 1)⟩

theorem quoteFree_zeros (n : Nat) : QuoteFree (Decimal.zeros n) := by
  simp [QuoteFree, Decimal.zeros]

theorem quoteFree_decimal (d : Decimal) : QuoteFree d.text := by
  have digits : QuoteFree (Nat.repr d.digits) := quoteFree_repr d.digits
  have part : ∀ s : List Char, s <:+: (Nat.repr d.digits).toList → QuoteFree (String.ofList s) := by
    intro s hs quote
    rw [String.toList_ofList] at quote
    exact digits (hs.subset quote)
  unfold Decimal.text
  simp only
  split
  · exact quoteFree_append.2 ⟨digits, quoteFree_zeros _⟩
  · split
    · exact quoteFree_append.2 ⟨quoteFree_append.2 ⟨by decide, quoteFree_zeros _⟩, digits⟩
    · exact quoteFree_append.2 ⟨quoteFree_append.2 ⟨part _ (List.take_prefix _ _).isInfix, by decide⟩,
        part _ (List.drop_suffix _ _).isInfix⟩

theorem quoteFree_float (x : Float) : QuoteFree (floatText x) := by
  unfold floatText
  cases FloatShape.ofFloat x with
  | notANumber => decide
  | infinite negative => cases negative <;> decide
  | zero negative => cases negative <;> decide
  | finite negative magnitude =>
      have sign : QuoteFree (if negative then "-" else "") := by cases negative <;> decide
      exact quoteFree_append.2 ⟨sign, quoteFree_decimal _⟩

/-- The names that a value mentions. -/
def valueIdentifiers : Value → List String
  | .table source => [source.model.path]
  | _ => []

/-- The text of a value has a quote only around a text, unless a name in it has one. -/
theorem fragment_value (v : Value) (plain : ∀ name ∈ valueIdentifiers v, QuoteFree name) :
    Fragment v.sql v.asText?.toList := by
  cases v with
  | text s => exact .literal s
  | null => exact .ofQuoteFree (by decide)
  | bool v => cases v <;> exact .ofQuoteFree (by decide)
  | int v => exact .ofQuoteFree (quoteFree_int v.toInt)
  | long v => exact .ofQuoteFree (quoteFree_int v.toInt)
  | float v => exact .ofQuoteFree (quoteFree_float v)
  | closure env =>
      have size : QuoteFree (toString env.size) := quoteFree_repr _
      exact .ofQuoteFree (quoteFree_append.2 ⟨quoteFree_append.2 ⟨by decide, size⟩, by decide⟩)
  | table source =>
      have path : QuoteFree source.model.path := plain _ (List.mem_singleton.2 rfl)
      exact .ofQuoteFree (quoteFree_append.2 ⟨quoteFree_append.2 ⟨by decide, path⟩, by decide⟩)

/-! ## Terms -/

namespace Term

/-- The texts inlined in a term, from left to right. -/
def texts (τ : Term) : List String :=
  τ.subterms.filterMap fun σ =>
    match σ with
    | literal value => value.asText?
    | _ => none

/-- The names that a term mentions. -/
def identifiers (τ : Term) : List String :=
  τ.subterms.flatMap fun σ =>
    match σ with
    | column _ name => [name]
    | literal value => valueIdentifiers value
    | _ => []

/-- Every operator but one is written between its operands. -/
theorem text_binary {op : BinaryOp} (infixed : op ≠ .coalesce) (l r : Term) :
    (binary op l r).text = "(" ++ (l.text ++ (" " ++ (op.symbol ++ (" " ++ (r.text ++ ")"))))) := by
  cases op with
  | coalesce => exact absurd rfl infixed
  | _ => simp only [text, String.append_assoc]

end Term

theorem quoteFree_scopeName (scope : Nat) : QuoteFree (Term.scopeName scope) :=
  quoteFree_append.2 ⟨by decide, quoteFree_repr scope⟩

theorem quoteFree_symbol (op : BinaryOp) : QuoteFree op.symbol := by
  cases op <;> decide

/-- A term contributes the texts inlined in it. -/
theorem fragment_term (τ : Term) (plain : ∀ name ∈ τ.identifiers, QuoteFree name) :
    Fragment τ.text τ.texts := by
  induction τ with
  | column scope name =>
      have hname : QuoteFree name := plain name (by simp [Term.identifiers, Term.subterms])
      have written : QuoteFree (Term.scopeName scope ++ "." ++ name) :=
        quoteFree_append.2 ⟨quoteFree_append.2 ⟨quoteFree_scopeName scope, by decide⟩, hname⟩
      exact .ofQuoteFree written
  | literal value =>
      have texts : (Term.literal value).texts = value.asText?.toList := by
        cases h : value.asText? <;> simp [Term.texts, Term.subterms, h]
      rw [texts]
      exact fragment_value value fun name hname =>
        plain name (by simpa [Term.identifiers, Term.subterms] using hname)
  | param index => exact .ofQuoteFree (quoteFree_append.2 ⟨by decide, quoteFree_repr index⟩)
  | binary op l r ihl ihr =>
      simp only [Term.identifiers, Term.subterms, List.flatMap_cons, List.flatMap_append,
        List.nil_append, List.forall_mem_append] at plain
      have hl : Fragment l.text l.texts := ihl plain.1
      have hr : Fragment r.text r.texts := ihr plain.2
      have texts : (Term.binary op l r).texts = l.texts ++ r.texts := by
        simp [Term.texts, Term.subterms]
      rw [texts]
      -- `COALESCE` is written in front of its operands, every other operator between them.
      by_cases coalesce : op = .coalesce
      · subst coalesce
        simp only [Term.text, String.append_assoc]
        exact (hl.separated (by decide) (by decide) (hr.suffixed (by decide))).prefixed (by decide)
      · rw [Term.text_binary coalesce]
        have right : Fragment (op.symbol ++ (" " ++ (r.text ++ ")"))) r.texts :=
          ((hr.suffixed (by decide)).prefixed (by decide)).prefixed (quoteFree_symbol op)
        exact (hl.separated (by decide) (by decide) right).prefixed (by decide)
  | not operand ih => exact (ih plain).prefixed (by decide)
  | negate operand ih => exact (ih plain).prefixed (by decide)
  | isNull operand negated ih =>
      cases negated with
      | false => exact (ih plain).suffixed (by decide)
      | true => exact (ih plain).suffixed (by decide)
  | caseWhen test ifTrue ifFalse iht iha ihb =>
      simp only [Term.identifiers, Term.subterms, List.flatMap_cons, List.flatMap_append,
        List.nil_append, List.forall_mem_append] at plain
      have ht : Fragment test.text test.texts := iht plain.1.1
      have ha : Fragment ifTrue.text ifTrue.texts := iha plain.1.2
      have hb : Fragment ifFalse.text ifFalse.texts := ihb plain.2
      have texts : (Term.caseWhen test ifTrue ifFalse).texts =
          test.texts ++ (ifTrue.texts ++ ifFalse.texts) := by
        simp [Term.texts, Term.subterms]
      rw [texts]
      simp only [Term.text, String.append_assoc]
      have branches : Fragment (ifTrue.text ++ (" ELSE " ++ (ifFalse.text ++ " END")))
          (ifTrue.texts ++ ifFalse.texts) :=
        ha.separated (by decide) (by decide) (hb.suffixed (by decide))
      exact (ht.separated (by decide) (by decide) branches).prefixed (by decide)

/-! ## Clauses -/

/-- A part that may follow a literal. -/
structure Continuation (s : String) (texts : List String) : Prop where
  fragment : Fragment s texts
  starts : s.toList.head? ≠ some '\''

namespace Continuation

variable {a b : String} {texts texts' : List String}

theorem empty : Continuation "" [] :=
  ⟨.ofQuoteFree (by decide), by simp⟩

theorem keyword (plain : QuoteFree a) (nonempty : a ≠ "") (h : Fragment b texts) :
    Continuation (a ++ b) texts :=
  ⟨h.prefixed plain, Fragment.starts_prefixed plain nonempty b⟩

theorem append (ha : Continuation a texts) (hb : Continuation b texts') :
    Continuation (a ++ b) (texts ++ texts') where
  fragment := ha.fragment.append hb.fragment hb.starts
  starts := by
    cases h : a.toList with
    | nil => simpa [h] using hb.starts
    | cons c s => simpa [h] using ha.starts

end Continuation

namespace Scope

/-- The terms of the clauses behind the source of a scope, as they are written. -/
def clauseTerms (scope : Scope) : List Term :=
  scope.filter.toList ++ scope.orderBy.map (·.term) ++ scope.take.toList ++ scope.skip.toList

def columnTexts (scope : Scope) : List String :=
  scope.columns.flatMap (·.term.texts)

def clauseTexts (scope : Scope) : List String :=
  scope.clauseTerms.flatMap Term.texts

/-- The names that a scope mentions: tables, columns and whatever its terms mention. -/
def identifiers (scope : Scope) : List String :=
  scope.source.toList.flatMap (fun source => source.qualifier.toList ++ [source.name]) ++
    scope.columns.flatMap (fun column => column.name :: column.term.identifiers) ++
      scope.clauseTerms.flatMap Term.identifiers

end Scope

section Scopes

variable {scope : Scope}

theorem quoteFree_source {source : TableSource}
    (plain : ∀ name ∈ source.qualifier.toList ++ [source.name], QuoteFree name) :
    QuoteFree source.text := by
  have hname : QuoteFree source.name := plain _ (by simp)
  unfold TableSource.text
  cases h : source.qualifier with
  | none => exact hname
  | some qualifier =>
      have hqualifier : QuoteFree qualifier := plain _ (by simp [h])
      exact quoteFree_append.2 ⟨quoteFree_append.2 ⟨hqualifier, by decide⟩, hname⟩

theorem fragment_columns (plain : ∀ name ∈ scope.identifiers, QuoteFree name) :
    Fragment (Query.columnsText scope.columns) scope.columnTexts := by
  unfold Query.columnsText Scope.columnTexts
  split
  · next none =>
      rw [List.isEmpty_iff.1 none]
      exact .ofQuoteFree (by decide)
  · refine .intercalate (by decide) (by decide) fun column hcolumn => ?_
    have named : ∀ name ∈ column.name :: column.term.identifiers, QuoteFree name := by
      intro name hname
      refine plain name ?_
      simp only [Scope.identifiers, List.mem_append, List.mem_flatMap]
      exact .inl (.inr ⟨column, hcolumn, hname⟩)
    rw [List.forall_mem_cons] at named
    exact ((fragment_term _ named.2).suffixed (by decide)).suffixed named.1

theorem continuation_clauses (plain : ∀ name ∈ scope.identifiers, QuoteFree name) :
    Continuation (Query.clausesText scope) scope.clauseTexts := by
  have term : ∀ τ ∈ scope.clauseTerms, Fragment τ.text τ.texts := by
    intro τ hτ
    refine fragment_term τ fun name hname => plain name ?_
    simp only [Scope.identifiers, List.mem_append, List.mem_flatMap]
    exact .inr ⟨τ, hτ, hname⟩
  simp only [Scope.clauseTerms, List.forall_mem_append] at term
  obtain ⟨⟨⟨filter, orderBy⟩, take⟩, skip⟩ := term
  have optional : ∀ (word : String) (clause : Option Term) (text : String),
      text = clause.elim "" (fun τ => word ++ τ.text) → QuoteFree word → word ≠ "" →
        (∀ τ ∈ clause.toList, Fragment τ.text τ.texts) →
          Continuation text (clause.toList.flatMap Term.texts) := by
    rintro word clause text rfl plain nonempty each
    cases clause with
    | none => exact .empty
    | some τ => simpa using Continuation.keyword plain nonempty (each τ (by simp))
  have sorted : Continuation (if scope.orderBy.isEmpty then "" else
      " ORDER BY " ++ String.intercalate ", " (scope.orderBy.map Query.orderItemText))
        ((scope.orderBy.map (·.term)).flatMap Term.texts) := by
    rw [List.flatMap_map]
    split
    · next none =>
        rw [List.isEmpty_iff.1 none]
        exact .empty
    · refine .keyword (by decide) (by decide) (.intercalate (by decide) (by decide) ?_)
      intro item hitem
      have key : Fragment item.term.text item.term.texts := orderBy _ (List.mem_map_of_mem hitem)
      refine key.suffixed ?_
      cases item.descending <;> decide
  unfold Query.clausesText
  rw [Scope.clauseTexts, Scope.clauseTerms, List.flatMap_append, List.flatMap_append,
    List.flatMap_append]
  refine (((optional " WHERE " _ _ ?_ (by decide) (by decide) filter).append sorted).append
    (optional " LIMIT " _ _ ?_ (by decide) (by decide) take)).append
      (optional " OFFSET " _ _ ?_ (by decide) (by decide) skip)
  · cases scope.filter <;> rfl
  · cases scope.take <;> rfl
  · cases scope.skip <;> rfl

end Scopes

/-! ## Queries -/

namespace Query

/-- The names that a query mentions. -/
def identifiers (query : Query) : List String :=
  query.scopes.flatMap Scope.identifiers

/-- The texts inlined in a query, as they are written: the select lists of the scopes from the outermost
one inwards, then their other clauses from the innermost one outwards. -/
def texts (query : Query) : List String :=
  query.scopes.reverse.flatMap Scope.columnTexts ++ query.scopes.flatMap Scope.clauseTexts

end Query

/-- The text of a scope contributes the texts inlined in the scope and in those before it. -/
theorem exists_fragment_scopeText {count : Nat} {scopes : List Scope}
    (h : Compile.ScopedList count scopes)
    (plain : ∀ scope ∈ scopes, ∀ name ∈ scope.identifiers, QuoteFree name) {k bound : Nat}
    (hk : k < scopes.length) (hbound : k < bound) :
    ∃ text, Query.scopeText? scopes bound k = some text ∧
      Fragment text ((scopes.take (k + 1)).reverse.flatMap Scope.columnTexts ++
        (scopes.take (k + 1)).flatMap Scope.clauseTexts) := by
  -- The text of a scope encloses the text of the scope before it.
  have enclosed : ∀ (k : Nat) (hk : k < scopes.length) {source : String} {texts : List String},
      Fragment source texts →
        Fragment ("SELECT " ++ Query.columnsText scopes[k].columns ++ " FROM " ++ source ++
            Query.clausesText scopes[k])
          (scopes[k].columnTexts ++ (texts ++ scopes[k].clauseTexts)) := by
    intro k hk source texts hsource
    have named := plain scopes[k] (List.getElem_mem hk)
    have clauses : Continuation (Query.clausesText scopes[k]) scopes[k].clauseTexts :=
      continuation_clauses named
    have reading : Fragment (source ++ Query.clausesText scopes[k])
        (texts ++ scopes[k].clauseTexts) := hsource.append clauses.fragment clauses.starts
    simp only [String.append_assoc]
    exact ((fragment_columns named).separated (by decide) (by decide) reading).prefixed (by decide)
  induction k generalizing bound with
  | zero =>
      rcases h.innermost with ⟨first, source, hfirst, hsource, -⟩
      obtain ⟨_, rfl⟩ := List.getElem?_eq_some_iff.1 hfirst
      obtain ⟨bound, rfl⟩ : ∃ below, bound = below + 1 := ⟨bound - 1, by omega⟩
      have tableNames : ∀ name ∈ source.qualifier.toList ++ [source.name], QuoteFree name := by
        intro name hname
        refine plain _ (List.getElem_mem hk) name ?_
        simp only [Scope.identifiers, hsource, Option.toList_some, List.flatMap_singleton]
        exact List.mem_append_left _ (List.mem_append_left _ hname)
      have table : Fragment (source.text ++ " " ++ Term.scopeName 0) [] :=
        .ofQuoteFree (quoteFree_append.2
          ⟨quoteFree_append.2 ⟨quoteFree_source tableNames, by decide⟩, quoteFree_scopeName 0⟩)
      have taken : scopes.take (0 + 1) = [scopes[0]] := by
        rw [← List.take_append_getElem hk]
        rfl
      rw [taken, List.reverse_singleton, List.flatMap_singleton, List.flatMap_singleton]
      refine ⟨_, ?_, enclosed 0 hk table⟩
      simp [Query.scopeText?, hfirst, hsource]
  | succ k ih =>
      have hscope : scopes[k + 1]? = some scopes[k + 1] := List.getElem?_eq_getElem hk
      obtain ⟨hsource, hparent⟩ := h.nested k _ hscope
      obtain ⟨bound, rfl⟩ : ∃ below, bound = below + 1 := ⟨bound - 1, by omega⟩
      obtain ⟨text, htext, written⟩ := ih (Nat.lt_of_succ_lt hk) (Nat.lt_of_succ_lt_succ hbound)
      have subquery := (written.prefixed (a := "(") (by decide)).suffixed (b := ") ") (by decide)
      have around : (scopes.take (k + 1 + 1)).reverse.flatMap Scope.columnTexts ++
            (scopes.take (k + 1 + 1)).flatMap Scope.clauseTexts =
          scopes[k + 1].columnTexts ++ ((scopes.take (k + 1)).reverse.flatMap Scope.columnTexts ++
            (scopes.take (k + 1)).flatMap Scope.clauseTexts ++ scopes[k + 1].clauseTexts) := by
        rw [← List.take_append_getElem hk]
        simp only [List.reverse_append, List.flatMap_append, List.reverse_singleton,
          List.flatMap_singleton, List.append_assoc]
      rw [around]
      refine ⟨_, ?_, enclosed (k + 1) hk (subquery.suffixed (quoteFree_scopeName k))⟩
      simp [Query.scopeText?, hscope, hsource, hparent, htext]

end Sql

namespace Compile

open Sql (Written literals? literal)

theorem scopedList_of_query {c : Compiler} {query : Sql.Query} (h : c.query = .ok query) :
    ScopedList query.slots.length query.scopes := by
  rcases Compiler.query_ok.1 h with ⟨ctx, hctx, rfl⟩
  have root : c.root.resolve? (List.replicate 0 0) = some c.root := c.root.resolve?_nil
  exact (scoped_of_builds (Compiler.builds_of_build 0 root hctx).2).close

/-- The literal of a text is read back up to whatever follows it, unless that starts with a quote.  In
the text of a compiled query no literal is followed by a quote, so that exactly the inlined texts are
read back from it. -/
theorem inlined_texts_read_back :
    (∀ (s : String) (rest : List Char), rest.head? ≠ some '\'' →
      literal ((Value.text s).sql.toList ++ rest) = some (s, rest)) ∧
    ∀ (rules : List Rule) (schema : Schema) (t : Expr) (query : Sql.Query),
      (⟨rules, schema, t⟩ : Compiler).query = .ok query →
      (∀ name ∈ query.identifiers, Sql.QuoteFree name) →
        ∃ text, query.text? = some text ∧ Written text.toList query.texts ∧
          literals? text.toList = some query.texts := by
  constructor
  · intro s rest ends
    exact Sql.literal_quoteText s ends
  · intro rules schema t query compiled plain
    have named : ∀ scope ∈ query.scopes, ∀ name ∈ scope.identifiers, Sql.QuoteFree name := by
      intro scope hscope name hname
      exact plain name (List.mem_flatMap.2 ⟨scope, hscope, hname⟩)
    have all : query.rootId + 1 = query.scopes.length := by
      simp [Sql.Query.rootId, Sql.Query.scopes]
    have last : query.rootId < query.scopes.length := Nat.lt_of_succ_le (Nat.le_of_eq all)
    obtain ⟨text, htext, fragment⟩ :=
      Sql.exists_fragment_scopeText (scopedList_of_query compiled) named last last
    rw [all, List.take_length] at fragment
    have written : Written text.toList query.texts := fragment.written
    exact ⟨text, htext, written, written.literals?_eq⟩

/-- What a person called by a name with a quote in it is shown as: quotes, one or two of them. -/
def Sample.quotations : Expr :=
  let people : Expr := ⟨80, .table element, .constant (.table ⟨person, element⟩)⟩
  let x : Expr := ⟨81, element, .parameter "x"⟩
  let nameOf : Expr := ⟨82, .text, .member ⟨element, "name", .text⟩ (some x)⟩
  let is (id : Nat) (name : String) : Expr :=
    ⟨id, .bool, .binary .equal none nameOf ⟨id + 1, .text, .constant (.text name)⟩ none⟩
  let quotes : Expr := ⟨91, .text, .conditional (is 83 "O'Hara") ⟨89, .text, .constant (.text "'")⟩
    ⟨90, .text, .constant (.text "''")⟩⟩
  let called : Expr := ⟨92, .bool, .lambda [⟨"x", element⟩] (is 85 "it's")⟩
  let shown : Expr := ⟨93, .text, .lambda [⟨"x", element⟩] quotes⟩
  let filtered : Expr := ⟨94, .queryable element, .call Operator.filter.method none [people, called]⟩
  ⟨95, .queryable .text, .call Operator.select.method none [filtered, shown]⟩

/-- Names that are or contain quotes are read back from the select list and the filter. -/
theorem quotations_read_back :
    literal ((Value.text "it's").sql.toList ++ ['\n', '\'']) = some ("it's", ['\n', '\'']) ∧
    ∃ query text, (⟨Rule.all, Sample.schema, Sample.quotations⟩ : Compiler).query = .ok query ∧
      query.text? = some text ∧
      literals? text.toList = some ["O'Hara", "'", "''", "it's"] := by
  obtain ⟨query, hquery, view⟩ :
      ∃ query, (⟨Rule.all, Sample.schema, Sample.quotations⟩ : Compiler).query = .ok query ∧
        (query.texts, query.identifiers) =
          (["O'Hara", "'", "''", "it's"], ["people", "value", "name", "name"]) :=
    Compiler.exists_query_of_view (by decide +kernel)
  obtain ⟨texts, identifiers⟩ := Prod.mk.inj view
  have plain : ∀ name ∈ query.identifiers, Sql.QuoteFree name := by
    rw [identifiers]
    decide
  obtain ⟨text, htext, -, read⟩ := inlined_texts_read_back.2 Rule.all Sample.schema _ query hquery plain
  rw [texts] at read
  exact ⟨inlined_texts_read_back.1 "it's" ['\n', '\''] (by decide), query, text, hquery, htext, read⟩

end Compile
end QueryPlan
