import QueryPlan.Proofs.Metrics.Totals
import QueryPlan.Enumeration.Basic

/-!
# Lifetime — what an enumeration does from its first step until it is dropped

An enumeration is asked for one item after another and then dropped.  What it yields is settled by the
answer of the connection to its first step: the mapped rows in the order of the cursor, up to the first
failure to open, read or map.  Later steps do not look at the connection again, so nothing here depends on
how it would answer them.

The cursor is held from the first step until an item is missing or a failure.  A start event is reported
with the first step and a finish event when the cursor is given back, whichever way that comes about.  Both
name the element type; the finish event counts the rows that the cursor gave out, whether or not they could
be mapped, and says how long that took: up to the step that ended the enumeration, or else up to the drop.
-/

namespace QueryPlan

/-- A list up to its first failure, which is its last entry then. -/
def upToFailure {ε α : Type} : List (Except ε α) → List (Except ε α)
  | [] => []
  | .error failure :: _ => [.error failure]
  | .ok a :: rest => .ok a :: upToFailure rest

namespace Command

def answer (command : Command) (connection : Connection) : Except ExecutionError Cursor :=
  connection command.query command.params

/-- A reply of the cursor as an item. -/
def item (command : Command) (reply : Except ExecutionError Row) : Except ExecutionError Item := do
  (← reply).toItem command.shape

/-- What an enumeration yields, by the answer that opening its cursor has. -/
def yields (command : Command) :
    Except ExecutionError Cursor → List (Except ExecutionError Item)
  | .error failure => [.error failure]
  | .ok cursor => upToFailure (cursor.map command.item)

/-- How many rows the cursor has given out after a number of steps: each step up to the last one that
yields something reads one reply, and the replies that are not failures are rows. -/
def fetched (command : Command) (steps : Nat) : Except ExecutionError Cursor → Nat
  | .error _ => 0
  | .ok cursor =>
      (cursor.take (min steps (command.yields (.ok cursor)).length)).countP Except.isOk

/-- How many steps yield a mapped row; the one after them ends the enumeration. -/
def mapped (command : Command) (answer : Except ExecutionError Cursor) : Nat :=
  (command.yields answer).countP Except.isOk

section Yields

variable {command : Command} {row : Row} {rest : Cursor}

@[simp]
theorem yields_nil : command.yields (.ok []) = [] :=
  rfl

@[simp]
theorem yields_error (failure : ExecutionError) :
    command.yields (.ok (.error failure :: rest)) = [.error failure] :=
  rfl

theorem yields_unmapped {failure : ExecutionError}
    (refused : row.toItem command.shape = .error failure) :
    command.yields (.ok (.ok row :: rest)) = [.error failure] := by
  have first : command.item (.ok row) = .error failure := refused
  simp [yields, first, upToFailure]

theorem yields_mapped {item : Item} (read : row.toItem command.shape = .ok item) :
    command.yields (.ok (.ok row :: rest)) = .ok item :: command.yields (.ok rest) := by
  have first : command.item (.ok row) = .ok item := read
  simp [yields, first, upToFailure]

@[simp]
theorem fetched_zero (answer : Except ExecutionError Cursor) : command.fetched 0 answer = 0 := by
  cases answer <;> simp [fetched]

@[simp]
theorem fetched_nil (steps : Nat) : command.fetched steps (.ok []) = 0 := by
  simp [fetched]

@[simp]
theorem fetched_error (steps : Nat) (failure : ExecutionError) :
    command.fetched steps (.ok (.error failure :: rest)) = 0 := by
  cases steps <;> simp [fetched, Except.isOk, Except.toBool]

theorem fetched_unmapped (steps : Nat) {failure : ExecutionError}
    (refused : row.toItem command.shape = .error failure) :
    command.fetched (steps + 1) (.ok (.ok row :: rest)) = 1 := by
  simp [fetched, yields_unmapped refused, Except.isOk, Except.toBool]

theorem fetched_mapped (steps : Nat) {item : Item} (read : row.toItem command.shape = .ok item) :
    command.fetched (steps + 1) (.ok (.ok row :: rest)) = 1 + command.fetched steps (.ok rest) := by
  rw [fetched, yields_mapped read, List.length_cons, Nat.succ_min_succ, List.take_succ_cons,
    List.countP_cons_of_pos (by rfl), Nat.add_comm]
  rfl

/-- An enumeration whose first item is a failure, or that has none, ends with its first step. -/
theorem mapped_of_ended {answer : Except ExecutionError Cursor}
    {item : Option (Except ExecutionError Item)} (only : command.yields answer = item.toList)
    (ended : ∀ read, item ≠ some (.ok read)) : command.mapped answer = 0 := by
  rw [mapped, only]
  match item with
  | none => rfl
  | some (.error _) => rfl
  | some (.ok read) => exact absurd rfl (ended read)

theorem mapped_cons {item : Item} (read : row.toItem command.shape = .ok item) :
    command.mapped (.ok (.ok row :: rest)) = command.mapped (.ok rest) + 1 := by
  rw [mapped, yields_mapped read, List.countP_cons_of_pos (by rfl)]
  rfl

theorem mapped_le (answer : Except ExecutionError Cursor) :
    command.mapped answer ≤ (command.yields answer).length :=
  List.countP_le_length

end Yields

end Command

/-- How one step of an enumeration finds the world: the connection as it is by then, and how many
microseconds after the first step this one ends. -/
structure Moment where
  connection : Connection
  elapsed : Nat

namespace Enumeration

/-! ## Steps in a row -/

/-- The steps of an enumeration that is asked at some moments. -/
def steps (command : Command) : List Moment → Enumeration → List EnumerationStep
  | [], _ => []
  | moment :: later, e =>
      let step := e.next moment.connection command moment.elapsed
      step :: steps command later step.rest

/-- The enumeration that is left after the steps. -/
def after (command : Command) : List Moment → Enumeration → Enumeration
  | [], e => e
  | moment :: later, e => after command later (e.next moment.connection command moment.elapsed).rest

/-- The items of an enumeration up to a number of them, then nothing. -/
def served (items : List (Except ExecutionError Item)) (count : Nat) :
    List (Option (Except ExecutionError Item)) :=
  (List.range count).map fun index => items[index]?

/-- Whether the first items, up to a number of them, are all there and no failures. -/
def AllRead (items : List (Except ExecutionError Item)) (count : Nat) : Prop :=
  ∀ index < count, ∃ item, items[index]? = some (.ok item)

/-- How long an enumeration takes that is dropped after its last step: it ends with the step that yields
no mapped row, or with the drop if there is no such step. -/
def duration (command : Command) (moments : List Moment) (dropped : Nat)
    (answer : Except ExecutionError Cursor) : Nat :=
  match moments[command.mapped answer]? with
  | some last => last.elapsed
  | none => dropped

theorem served_nil (count : Nat) : served [] count = List.replicate count none := by
  simp [served, List.map_const']

theorem served_succ (items : List (Except ExecutionError Item)) (count : Nat) :
    served items (count + 1) = items[0]? :: served items.tail count := by
  simp [served, List.range_succ_eq_map, Function.comp_def]

theorem allRead_cons (item : Item) (items : List (Except ExecutionError Item)) (count : Nat) :
    AllRead (.ok item :: items) (count + 1) ↔ AllRead items count := by
  constructor
  · intro all index below
    simpa using all (index + 1) (by omega)
  · intro all index below
    cases index with
    | zero => exact ⟨item, rfl⟩
    | succ index => simpa using all index (by omega)

/-! ## After the first step -/

/-- What the steps of an enumeration that needs no opening amount to: the items in turn, the cursor held
as long as they are rows, and the closing events as soon as it is not. -/
structure Continues (command : Command) (moments : List Moment) (dropped : Nat) (e : Enumeration)
    (yielded : List (Except ExecutionError Item)) (closing : List Event) : Prop where
  items : (steps command moments e).map (·.item) = served yielded moments.length
  unopened : ∀ step ∈ steps command moments e, step.opened = 0
  held : (after command moments e).isOpen ↔ AllRead yielded moments.length
  events : (steps command moments e).flatMap (·.events) =
    if (after command moments e).isOpen then [] else closing
  abandoned : (after command moments e).abandon command.query dropped =
    if (after command moments e).isOpen then closing else []

section Continues

variable {command : Command} {moment : Moment} {later : List Moment} {dropped : Nat} {e : Enumeration}

theorem after_done (moments : List Moment) : after command moments .done = .done := by
  induction moments with
  | nil => rfl
  | cons moment later ih => exact ih

theorem steps_done (moments : List Moment) :
    steps command moments .done = List.replicate moments.length ⟨none, 0, [], .done⟩ := by
  induction moments with
  | nil => rfl
  | cons moment later ih => simp only [steps, next, ih, List.length_cons, List.replicate_succ]

theorem length_steps (moments : List Moment) (e : Enumeration) :
    (steps command moments e).length = moments.length := by
  induction moments generalizing e with
  | nil => rfl
  | cons moment later ih => simp [steps, ih]

/-- A step that ends the enumeration: nothing is left but what it yields and reports itself. -/
theorem continues_of_ended (item : Option (Except ExecutionError Item)) {closing : List Event}
    (step : e.next moment.connection command moment.elapsed = ⟨item, 0, closing, .done⟩)
    (ended : ∀ read, item ≠ some (.ok read)) :
    Continues command (moment :: later) dropped e item.toList closing := by
  have finished : after command (moment :: later) e = .done := by
    rw [after, step, after_done]
  have all : steps command (moment :: later) e =
      ⟨item, 0, closing, .done⟩ :: List.replicate later.length ⟨none, 0, [], .done⟩ := by
    rw [steps, step, steps_done]
  refine
    { items := ?_
      unopened := ?_
      held := ?_
      events := ?_
      abandoned := ?_ }
  · rw [all, List.length_cons, served_succ]
    cases item <;> simp [served_nil]
  · rw [all]
    simp
  · rw [finished]
    refine ⟨nofun, fun read => ?_⟩
    obtain ⟨first, found⟩ := read 0 (by simp)
    cases item with
    | none => cases found
    | some item => exact absurd found (ended first)
  · simp [all, finished, isOpen]
  · simp [finished, isOpen, abandon]

/-- A step that yields a mapped row: the rest is as the enumeration that is left continues. -/
theorem Continues.cons {rest : Enumeration} {item : Item}
    {yielded : List (Except ExecutionError Item)} {closing : List Event}
    (tail : Continues command later dropped rest yielded closing)
    (step : e.next moment.connection command moment.elapsed = ⟨some (.ok item), 0, [], rest⟩) :
    Continues command (moment :: later) dropped e (.ok item :: yielded) closing where
  items := by simp [steps, step, served_succ, tail.items]
  unopened := by simpa [steps, step] using tail.unopened
  held := by simpa [after, step, allRead_cons] using tail.held
  events := by simpa [steps, after, step] using tail.events
  abandoned := by simpa [after, step] using tail.abandoned

/-- An enumeration with an open cursor reads on from where it stands. -/
theorem continues_reading (moments : List Moment) (dropped : Nat) (cursor : Cursor) (rows : Counter) :
    Continues command moments dropped (.reading cursor rows) (command.yields (.ok cursor))
      [finishEvent command.query (rows.add (command.fetched moments.length (.ok cursor)))
        (duration command moments dropped (.ok cursor))] := by
  induction moments generalizing cursor rows with
  | nil =>
    refine ⟨rfl, by simp [steps], by simp [after, isOpen, AllRead], rfl, ?_⟩
    simp [after, isOpen, abandon, duration, Saturating.add_zero]
  | cons moment later ih =>
    -- A step that yields no mapped row is the last one, so its time is the duration.
    have at_end (item : Option (Except ExecutionError Item)) (closing : Counter)
        (only : command.yields (.ok cursor) = item.toList) (ended : ∀ read, item ≠ some (.ok read))
        (step : Enumeration.next moment.connection command moment.elapsed (.reading cursor rows) =
          ⟨item, 0, [finishEvent command.query closing moment.elapsed], .done⟩)
        (count : rows.add (command.fetched (moment :: later).length (.ok cursor)) = closing) :
        Continues command (moment :: later) dropped (.reading cursor rows) (command.yields (.ok cursor))
          [finishEvent command.query
            (rows.add (command.fetched (moment :: later).length (.ok cursor)))
            (duration command (moment :: later) dropped (.ok cursor))] := by
      rw [count, only, duration, Command.mapped_of_ended only ended]
      exact continues_of_ended item step ended
    match cursor with
    | [] =>
      refine at_end none rows rfl nofun rfl ?_
      rw [Command.fetched_nil, Saturating.add_zero]
    | .error failure :: rest =>
      refine at_end (some (.error failure)) rows rfl nofun rfl ?_
      rw [Command.fetched_error, Saturating.add_zero]
    | .ok row :: rest =>
      cases read : row.toItem command.shape with
      | error failure =>
        refine at_end (some (.error failure)) (rows.add 1) (Command.yields_unmapped read) nofun ?_ ?_
        · simp [next, advance, read]
        · rw [List.length_cons, Command.fetched_unmapped _ read]
      | ok item =>
        have tail := ih rest (rows.add 1)
        rw [Saturating.add_add] at tail
        rw [Command.yields_mapped read, List.length_cons, Command.fetched_mapped _ read, duration,
          Command.mapped_cons read, List.getElem?_cons_succ]
        exact tail.cons (by simp [next, advance, read])

end Continues

/-! ## From the first step to the last -/

/-- An amount as events report it, in 64 bits. -/
def reported (amount : Nat) : Nat :=
  min (2 ^ 64 - 1) amount

/-- What an enumeration yields, by how its first step finds the connection. -/
def yielded (command : Command) : List Moment → List (Except ExecutionError Item)
  | [] => []
  | first :: _ => command.yields (command.answer first.connection)

/-- The events of a whole enumeration that is dropped after its last step: none if it is never asked, else
a start, and a finish with the number of rows fetched and the duration. -/
def reports (command : Command) (moments : List Moment) (dropped : Nat) : List Event :=
  match moments with
  | [] => []
  | first :: _ =>
      let answer := command.answer first.connection
      [.started command.query.element.name,
        .finished command.query.element.name (reported (command.fetched moments.length answer))
          (reported (duration command moments dropped answer))]

/-- The life of an enumeration that is asked once at each of some moments and then dropped, a number of
microseconds after its first step. -/
structure Lifetime (command : Command) (moments : List Moment) (dropped : Nat) : Prop where
  /-- The items come in turn, up to the first failure; behind them there is nothing. -/
  items : (steps command moments .pending).map (·.item) =
    served (yielded command moments) moments.length
  /-- The first step opens a cursor, or tries to; no later one does. -/
  opened : (steps command moments .pending).map (·.opened) =
    (List.range moments.length).map fun index => if index = 0 then 1 else 0
  /-- The cursor is held as long as every step so far has yielded a mapped row. -/
  held : (after command moments .pending).isOpen ↔
    moments ≠ [] ∧ AllRead (yielded command moments) moments.length
  /-- As long as the cursor is held, the start is all that is reported; when it no longer is, both
  events have been. -/
  reported : (steps command moments .pending).flatMap (·.events) =
    if (after command moments .pending).isOpen then [.started command.query.element.name]
    else reports command moments dropped
  /-- Whether the enumeration ends by itself or is dropped, both events have been reported by then. -/
  dropped : (steps command moments .pending).flatMap (·.events) ++
      (after command moments .pending).abandon command.query dropped =
    reports command moments dropped

/-- What reading a query to the end amounts to: all that single steps yield or the first failure among it,
with the events of steps that go past the end, the last of them at a given time. -/
structure Collected (command : Command) (connection : Connection) : Prop where
  all : ∀ items : List Item, collect (drain connection command).1 = .ok items ↔
    command.yields (command.answer connection) = items.map .ok
  failed : ∀ failure : ExecutionError, collect (drain connection command).1 = .error failure ↔
    ∃ items : List Item,
      command.yields (command.answer connection) = items.map .ok ++ [.error failure]
  reported : ∀ count elapsed dropped, (command.yields (command.answer connection)).length < count →
    drainEvents command.query (drain connection command).2 elapsed =
      reports command (List.replicate count ⟨connection, elapsed⟩) dropped

section Lifetime

variable {command : Command} {first : Moment} {later : List Moment} {dropped : Nat}

/-- A finish event by its contents. -/
theorem finishEvent_eq (query : Sql.Query) (rows elapsed : Nat) :
    finishEvent query (Saturating.zero.add rows) elapsed =
      .finished query.element.name (Enumeration.reported rows) (Enumeration.reported elapsed) := by
  rw [finishEvent, Saturating.value_zero_add]
  rfl

/-- Once the first step is like a step of reading a cursor, with the opening and the start in front of it,
the whole run is like reading that cursor. -/
theorem lifetime_of_first (cursor : Cursor)
    (step : Enumeration.pending.next first.connection command first.elapsed =
      { advance command first.elapsed cursor .zero with
        opened := 1
        events := startEvent command.query :: (advance command first.elapsed cursor .zero).events })
    (same : command.yields (command.answer first.connection) = command.yields (.ok cursor))
    (count : command.fetched (first :: later).length (command.answer first.connection) =
      command.fetched (first :: later).length (.ok cursor)) :
    Lifetime command (first :: later) dropped := by
  have reading : Continues command (first :: later) dropped (.reading cursor .zero) _ _ :=
    continues_reading (first :: later) dropped cursor .zero
  have closing : startEvent command.query :: [finishEvent command.query
      (Saturating.zero.add (command.fetched (first :: later).length (.ok cursor)))
      (duration command (first :: later) dropped (.ok cursor))] =
        reports command (first :: later) dropped := by
    rw [finishEvent_eq, reports, count, duration, duration, Command.mapped, Command.mapped, same]
    rfl
  have left : after command (first :: later) .pending =
      after command (first :: later) (.reading cursor .zero) := by
    rw [after, step]
    rfl
  have behind : steps command (first :: later) .pending =
      Enumeration.pending.next first.connection command first.elapsed ::
        steps command later (advance command first.elapsed cursor .zero).rest := by
    rw [steps, step]
  have events : (steps command (first :: later) .pending).flatMap (·.events) =
      startEvent command.query ::
        (steps command (first :: later) (.reading cursor .zero)).flatMap (·.events) := by
    rw [behind, step]
    rfl
  refine
    { items := ?_
      opened := ?_
      held := ?_
      reported := ?_
      dropped := ?_ }
  · rw [yielded, same, ← reading.items, behind, step]
    rfl
  · have unopened : ∀ step ∈ steps command later (advance command first.elapsed cursor .zero).rest,
        step.opened = 0 :=
      fun step member => reading.unopened step (List.mem_cons_of_mem _ member)
    rw [behind, step, List.length_cons, List.range_succ_eq_map, List.map_cons, List.map_cons,
      List.map_eq_replicate_iff.2 unopened]
    simp [Function.comp_def, List.map_const', length_steps]
  · rw [left, yielded, same, reading.held]
    simp
  · rw [events, reading.events, left, ← closing]
    split <;> rfl
  · rw [events, reading.events, left, reading.abandoned, ← closing]
    split <;> rfl

/-- A connection that refuses is like one with a cursor that fails at once. -/
theorem lifetime (command : Command) (moments : List Moment) (dropped : Nat) :
    Lifetime command moments dropped := by
  cases moments with
  | nil => exact ⟨rfl, rfl, by simp [after, isOpen], rfl, rfl⟩
  | cons first later =>
    cases opened : command.answer first.connection with
    | error failure =>
      have refused : first.connection command.query command.params = .error failure := opened
      apply lifetime_of_first [.error failure]
      · simp [next, advance, refused]
      · rw [opened, Command.yields_error, Command.yields]
      · rw [opened, Command.fetched_error, Command.fetched]
    | ok cursor =>
      have accepted : first.connection command.query command.params = .ok cursor := opened
      apply lifetime_of_first cursor
      · simp [next, accepted]
      · rw [opened]
      · rw [opened]

end Lifetime

/-! ## Reading to the end -/

section Collected

variable {command : Command}

theorem collect_cons (item : Item) (rest : List (Except ExecutionError Item)) :
    collect (.ok item :: rest) = (collect rest).map (item :: ·) := by
  rw [collect]
  cases collect rest <;> rfl

theorem collect_eq_ok (items : List (Except ExecutionError Item)) (read : List Item) :
    collect items = .ok read ↔ items = read.map .ok := by
  induction items generalizing read with
  | nil => cases read <;> simp [collect]
  | cons item rest ih =>
    match item, read with
    | .error failure, read => cases read <;> simp [collect]
    | .ok item, [] => cases collected : collect rest <;> simp [collect_cons, collected, Except.map]
    | .ok item, first :: read =>
      rw [collect_cons, List.map_cons, List.cons.injEq, ← ih]
      cases collected : collect rest <;> simp [Except.map]

theorem collect_eq_error (items : List (Except ExecutionError Item)) (failure : ExecutionError) :
    collect (upToFailure items) = .error failure ↔
      ∃ read : List Item, upToFailure items = read.map .ok ++ [.error failure] := by
  induction items with
  | nil => simp [upToFailure, collect]
  | cons item rest ih =>
    cases item with
    | error other =>
      refine ⟨fun failed => ⟨[], by simpa [upToFailure, collect] using failed⟩, ?_⟩
      rintro ⟨read, same⟩
      cases read with
      | nil => simpa [upToFailure, collect] using same
      | cons first read => simp [upToFailure] at same
    | ok item =>
      have shorter : collect (upToFailure (.ok item :: rest)) = .error failure ↔
          collect (upToFailure rest) = .error failure := by
        rw [upToFailure, collect_cons]
        cases collect (upToFailure rest) <;> simp [Except.map]
      rw [shorter, ih]
      constructor
      · rintro ⟨read, same⟩
        exact ⟨item :: read, by rw [upToFailure, same]; rfl⟩
      · rintro ⟨read, same⟩
        cases read with
        | nil => simp [upToFailure] at same
        | cons first read => exact ⟨read, by simpa [upToFailure] using congrArg List.tail same⟩

/-- Reading a cursor to the end yields what single steps yield, and fetches as many rows as any number of
steps that reaches the last item. -/
theorem drainCursor_eq (cursor : Cursor) (rows : Counter) (count : Nat)
    (enough : (command.yields (.ok cursor)).length ≤ count) :
    drainCursor command cursor rows =
      (command.yields (.ok cursor), rows.add (command.fetched count (.ok cursor))) := by
  induction cursor generalizing rows count with
  | nil => simp [drainCursor, Saturating.add_zero]
  | cons reply rest ih =>
    cases reply with
    | error failure => simp [drainCursor, Saturating.add_zero]
    | ok row =>
      cases read : row.toItem command.shape with
      | error failure =>
        rw [Command.yields_unmapped read] at enough ⊢
        obtain ⟨count, rfl⟩ := Nat.exists_eq_add_of_le' enough
        rw [List.length_singleton, Command.fetched_unmapped _ read]
        simp [drainCursor, read]
      | ok item =>
        rw [Command.yields_mapped read] at enough ⊢
        obtain ⟨count, rfl⟩ := Nat.exists_eq_add_one.2 (Nat.lt_of_lt_of_le (Nat.succ_pos _) enough)
        rw [Command.fetched_mapped _ read, ← Saturating.add_add]
        simp only [drainCursor, read, ih (rows.add 1) count (Nat.le_of_succ_le_succ enough)]

theorem drain_eq (connection : Connection) (count : Nat)
    (enough : (command.yields (command.answer connection)).length ≤ count) :
    drain connection command =
      (command.yields (command.answer connection),
        Saturating.zero.add (command.fetched count (command.answer connection))) := by
  cases opened : command.answer connection with
  | error failure =>
    have refused : connection command.query command.params = .error failure := opened
    simp [drain, refused, Command.yields, Command.fetched, Saturating.add_zero]
  | ok cursor =>
    have accepted : connection command.query command.params = .ok cursor := opened
    rw [opened] at enough
    rw [drain, accepted]
    exact drainCursor_eq cursor .zero count enough

/-- Steps that go past the last item, all at one time, take that time. -/
theorem duration_replicate (connection : Connection) (answer : Except ExecutionError Cursor)
    {count : Nat} (enough : (command.yields answer).length < count) (elapsed dropped : Nat) :
    duration command (List.replicate count ⟨connection, elapsed⟩) dropped answer = elapsed := by
  have within : command.mapped answer < count := Nat.lt_of_le_of_lt (Command.mapped_le answer) enough
  rw [duration, List.getElem?_replicate_of_lt within]

end Collected

/-- For every command, however its connection behaves, however its rows map and however long that takes: an
enumeration that is asked any number of times and then dropped leads the described life, and reading the
query to the end gives all items or the first failure, with the same two events. -/
theorem enumerations_accounted (command : Command) :
    (∀ moments dropped, Lifetime command moments dropped) ∧
      ∀ connection, Collected command connection := by
  refine ⟨lifetime command, fun connection => ?_⟩
  have items : (drain connection command).1 = command.yields (command.answer connection) := by
    rw [drain_eq connection _ (Nat.le_refl _)]
  refine
    { all := ?_
      failed := ?_
      reported := ?_ }
  · intro read
    rw [items, collect_eq_ok]
  · intro failure
    obtain ⟨replies, same⟩ :
        ∃ replies, command.yields (command.answer connection) = upToFailure replies := by
      cases command.answer connection with
      | error failure => exact ⟨[.error failure], rfl⟩
      | ok cursor => exact ⟨cursor.map command.item, rfl⟩
    rw [items, same, collect_eq_error]
  · intro count elapsed dropped enough
    obtain ⟨more, rfl⟩ := Nat.exists_eq_add_one.2 (Nat.lt_of_le_of_lt (Nat.zero_le _) enough)
    rw [drain_eq connection _ (Nat.le_of_lt enough), drainEvents, finishEvent_eq]
    have time := duration_replicate connection _ enough elapsed dropped
    rw [List.replicate_succ] at time ⊢
    rw [reports, time, List.length_cons, List.length_replicate]
    rfl

namespace Sample

/-- The ages of people, as 32-bit integers. -/
def ages : Command where
  query := ⟨[], .ofParent 0, [], .named "Person"⟩
  params := []
  shape := .column .int32

/-- Three rows, the second of which is a text. -/
def mixed : Connection :=
  .inMemory [(["age"], [.int 36]), (["age"], [.text "forty"]), (["age"], [.int 52])] none false

/-- Four steps, the last two of them on a connection that is broken by then. -/
def moments : List Moment :=
  [⟨mixed, 10⟩, ⟨mixed, 25⟩, ⟨.inMemory [] none true, 30⟩, ⟨.inMemory [] none true, 35⟩]

end Sample

/-- The row that cannot be mapped is fetched, and ends the enumeration; a drop before that ends it with one
row fetched. -/
theorem unmapped_row_accounted :
    let all := steps Sample.ages Sample.moments .pending
    let first := Sample.moments.take 1
    (all.map fun step => step.item.map (·.isOk)) = [some true, some false, none, none] ∧
      all.map (·.opened) = [1, 0, 0, 0] ∧
      all.flatMap (·.events) = [.started "Person", .finished "Person" 2 25] ∧
      (after Sample.ages first .pending).isOpen = true ∧
      (steps Sample.ages first .pending).flatMap (·.events) ++
        (after Sample.ages first .pending).abandon Sample.ages.query 20 =
          [.started "Person", .finished "Person" 1 20] ∧
      (collect (drain Sample.mixed Sample.ages).1).isOk = false := by
  intro all first
  have life := (enumerations_accounted Sample.ages).1 Sample.moments 40
  have short := (enumerations_accounted Sample.ages).1 first 20
  have ended : (after Sample.ages Sample.moments .pending).isOpen = false := by decide +kernel
  have events := life.reported
  rw [ended] at events
  refine ⟨by decide +kernel, life.opened, ?_, by decide +kernel, ?_, by decide +kernel⟩
  · exact events.trans (by decide +kernel)
  · exact short.dropped.trans (by decide +kernel)

end Enumeration

end QueryPlan
