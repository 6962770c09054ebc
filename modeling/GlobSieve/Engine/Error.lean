import GlobSieve.Literal.Error

/-!
# What can go wrong with an engine

The causes of failure of every operation, their wording (`message`), the form that shows constructor and contents
(`inspect`), and what a scanner's refusal becomes (`ofLiteral`). Only a duplicate literal is no reason to give up
(`recoverable`).
-/

namespace GlobSieve

/-- Why an operation on an engine failed. -/
inductive EngineError where
  | invalidPattern (detail : String)
  | invalidLiteral (detail : String)
  | duplicateLiteral (id : Nat)
  /-- The engine takes no more patterns. -/
  | closed
  | notCompiled
  | alreadyCompiled
  | scanner (cause : LiteralError)
  | serialization (detail : String)
  | io (detail : String)
  deriving DecidableEq, Repr

namespace EngineError

def message : EngineError → String
  | invalidPattern detail => s!"Invalid pattern: {detail}"
  | invalidLiteral detail => s!"Invalid literal: {detail}"
  | duplicateLiteral id => s!"Duplicate literal (id {id})"
  | closed => "Automaton is closed; no more patterns can be inserted"
  | notCompiled => "Paraglob is not compiled"
  | alreadyCompiled => "Paraglob is already compiled"
  | scanner cause => s!"Scanner error: {cause.message}"
  | serialization detail => s!"Serialization error: {detail}"
  | io detail => s!"I/O error: {detail}"

def inspect : EngineError → String
  | invalidPattern detail => s!"InvalidPattern({Text.quoted detail.toList})"
  | invalidLiteral detail => s!"InvalidLiteral({Text.quoted detail.toList})"
  | duplicateLiteral id => s!"DuplicateLiteral \x7b literal_id: {id} \x7d"
  | closed => "AutomatonClosed"
  | notCompiled => "NotCompiled"
  | alreadyCompiled => "AlreadyCompiled"
  | scanner cause => s!"Scanner({cause.inspect})"
  | serialization detail => s!"Serialization({Text.quoted detail.toList})"
  | io detail => s!"Io({Text.quoted detail.toList})"

/-- Whether a caller may ignore the failure and go on. -/
def recoverable : EngineError → Bool
  | duplicateLiteral _ => true
  | _ => false

/-- A scanner's refusal as a failure of the engine. -/
def ofLiteral : LiteralError → EngineError
  | .duplicate id => duplicateLiteral id
  | .resourceLimit detail => scanner (.resourceLimit detail)
  | e => invalidLiteral e.message

end EngineError

end GlobSieve
