import QueryPlan.Enumeration.Basic
import QueryPlan.NameTable

/-!
# Script — several enumerations of one command

A reader runs one command on one connection any number of times.  Enumerations are known by name and
advance independently; starting one under a name in use abandons the earlier one.  `Reader.step`
answers one request and says what became visible: how often the command was opened, and the events
in order.  It is told how long the enumeration that the request is about has taken by then.
-/

namespace QueryPlan

/-- A command on a connection, with the enumerations in progress. -/
structure Reader where
  connection : Connection
  command : Command
  active : NameTable Enumeration

inductive ReaderRequest where
  | start (name : String)
  | next (name : String)
  | isOpen (name : String)
  | abandon (name : String)
  /-- Read everything, up to the first failure. -/
  | collect
  /-- Read everything, failures included. -/
  | each

inductive ReaderAnswer where
  | started
  | item (result : Option (Except ExecutionError Item))
  | flag (value : Bool)
  | collected (result : Except ExecutionError (List Item))
  | items (results : List (Except ExecutionError Item))
  | unknown

/-- An answer, what became visible with it, and the reader that is left. -/
structure ReaderStep where
  answer : ReaderAnswer
  opened : Nat
  events : List Event
  rest : Reader

namespace Reader

def find? (reader : Reader) (name : String) : Option Enumeration :=
  reader.active.lookup name

def openCount (reader : Reader) : Nat :=
  (reader.active.filter (·.2.isOpen)).length

def put (reader : Reader) (name : String) (e : Enumeration) : Reader :=
  { reader with active := reader.active.insert name e }

def abandonEvents (reader : Reader) (elapsed : Nat) (name : String) : List Event :=
  match reader.find? name with
  | some e => e.abandon reader.command.query elapsed
  | none => []

def step (reader : Reader) (elapsed : Nat) : ReaderRequest → ReaderStep
  | .start name =>
      ⟨.started, 0, reader.abandonEvents elapsed name, reader.put name .pending⟩
  | .next name =>
      match reader.find? name with
      | some e =>
          let next := e.next reader.connection reader.command elapsed
          ⟨.item next.item, next.opened, next.events, reader.put name next.rest⟩
      | none => ⟨.unknown, 0, [], reader⟩
  | .isOpen name =>
      match reader.find? name with
      | some e => ⟨.flag e.isOpen, 0, [], reader⟩
      | none => ⟨.unknown, 0, [], reader⟩
  | .abandon name =>
      ⟨.flag (reader.find? name).isSome, 0, reader.abandonEvents elapsed name,
        { reader with active := reader.active.erase name }⟩
  | .collect =>
      let drained := Enumeration.drain reader.connection reader.command
      ⟨.collected (Enumeration.collect drained.1), 1,
        Enumeration.drainEvents reader.command.query drained.2 elapsed, reader⟩
  | .each =>
      let drained := Enumeration.drain reader.connection reader.command
      ⟨.items drained.1, 1, Enumeration.drainEvents reader.command.query drained.2 elapsed, reader⟩

/-- Abandon every enumeration, in order of names, each after its own time; the events are those of
releasing the cursors held. -/
def close (reader : Reader) (elapsed : String → Nat) : List Event :=
  reader.active.flatMap fun a => a.2.abandon reader.command.query (elapsed a.1)

end Reader

end QueryPlan
