import Formula.Expr
import Formula.ParseError

/-!
# Events

What the library reports while it works. Events are values, so a log can be compared and
counted. `Event.lines` writes the events up to a level of verbosity, one line each.
-/

namespace Formula

/-- How much an event matters, from `error` down to `trace`. -/
inductive Level
  | error
  | warn
  | info
  | debug
  | trace
  deriving Repr, DecidableEq

namespace Level

/-- The word for a level. -/
def text : Level → String
  | error => "ERROR"
  | warn => "WARN"
  | info => "INFO"
  | debug => "DEBUG"
  | trace => "TRACE"

/-- The place of a level in the order of verbosity. -/
def rank : Level → Nat
  | error => 1
  | warn => 2
  | info => 3
  | debug => 4
  | trace => 5

end Level

/-- Something worth a line in a log. -/
inductive Event
  /-- A typed text was brought into its normal form. -/
  | normalized (raw normal : String)
  /-- Reading of a normal form begins. -/
  | parsing (normal : String)
  /-- A whole formula was read. -/
  | parsed (tree : Expr)
  /-- A number literal was met. -/
  | literal (text : String) (position : Nat)
  /-- A name was met. -/
  | identifier (name : String) (position : Nat)
  /-- A group was closed without its parenthesis. -/
  | unclosedGroup (position : Nat)
  /-- A term after a variable was read and dropped. -/
  | droppedTerm (name : String) (position : Nat) (tree : Expr)
  /-- A formula was sampled point after point. -/
  | sampled (count : Nat) (name : String)
  /-- A formula was sampled in pieces. -/
  | sampledInParallel (count : Nat) (name : String)
  /-- The tree of a text was in the cache. -/
  | cacheHit (raw : String)
  /-- The tree of a text was not in the cache. -/
  | cacheMiss (raw : String)
  /-- A text to compute is not a formula. -/
  | failedParse (raw : String) (error : ParseError)
  /-- The one variable of a formula takes the place of the configured one. -/
  | graphingOver (only configured : String)

namespace Event

/-- The level of an event. -/
def level : Event → Level
  | normalized .. => .trace
  | literal .. => .trace
  | identifier .. => .trace
  | unclosedGroup .. => .warn
  | _ => .debug

/-- The message of an event. -/
def message : Event → String
  | normalized raw normal => s!"normalized {quoted raw} -> {quoted normal}"
  | parsing normal => s!"Parsing expression: {normal}"
  | parsed tree => s!"Parse result: {tree.description}"
  | literal text position => s!"Number literal {quoted text} at {position}"
  | identifier name position => s!"Identifier {quoted name} at {position}"
  | unclosedGroup position =>
    s!"Missing ')' at position {position}, closing group implicitly"
  | droppedTerm name position tree =>
    s!"Variable '{name}' at {position} drops trailing term {tree.description}"
  | sampled count name => s!"Sampled {count} points of '{name}'"
  | sampledInParallel count name => s!"Sampled {count} points of '{name}' in parallel"
  | cacheHit raw => s!"Cache hit for {quoted raw}"
  | cacheMiss raw => s!"Cache miss for {quoted raw}"
  | failedParse raw error => s!"Failed to parse {quoted raw}: {error.message}"
  | graphingOver only configured => s!"Graphing over '{only}' instead of '{configured}'"

/-- The line of an event in a log. -/
def line (event : Event) : String :=
  event.level.text ++ " " ++ event.message

/-- The lines of the events that are no more verbose than a level. -/
def lines (limit : Level) (events : List Event) : List String :=
  (events.filter fun event => event.level.rank ≤ limit.rank).map line

end Event

end Formula
