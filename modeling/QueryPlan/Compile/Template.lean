import QueryPlan.Compile.Link

/-!
# Template — compiling a whole chain

Each link is handed to the first rule that accepts it, together with the context built by the link's
source.  Contexts are therefore built from the table outwards, while rules are chosen from the
outermost link inwards.
-/

namespace QueryPlan
namespace Compile

open Sql (Context Query)

namespace Compiler

def findRule? (c : Compiler) (e : Expr) : Option Rule :=
  c.rules.find? (·.accepts e)

def dispatch (c : Compiler) (e : Expr) (below : Unit → Except CompileError Context) :
    Except CompileError Context :=
  match c.findRule? e with
  | some rule => c.extend rule e below
  | none => .error (.unacceptedLink (Link.describe e))

/-- The context built by a link and everything it applies to. -/
def build (c : Compiler) : Expr → Except CompileError Context
  | ⟨id, ty, .call m none [source, argument]⟩ =>
      c.dispatch ⟨id, ty, .call m none [source, argument]⟩ fun _ => c.build source
  | e => c.dispatch e fun _ => .error (.unacceptedLink (Link.describe e))

/-- The context built by a link's source; a node that is no operator call has none. -/
def below (c : Compiler) (e : Expr) : Except CompileError Context :=
  match Link.ofExpr? e with
  | some link => c.build link.source
  | none => .error (.unacceptedLink (Link.describe e))

/-- The context that a given rule builds from a link, whether or not it accepts the link. -/
def apply (c : Compiler) (rule : Rule) (e : Expr) : Except CompileError Context :=
  c.extend rule e fun _ => c.below e

def query (c : Compiler) : Except CompileError Query := do
  return (← c.build c.root).finish

end Compiler
end Compile
end QueryPlan
