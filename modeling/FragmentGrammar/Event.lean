import FragmentGrammar.Grammar
import FragmentGrammar.Token

/-! # What a parse tells on its way

    A parse leaves a trace of what it did: the tokens it read, the fragments it
    resolved, the productions it made.  Coarse events are for debugging and fine ones
    for tracing. -/

namespace FragmentGrammar

/-- Something that happened during a parse. -/
inductive Event (L : Type) where
  /-- A source of `size` bytes is about to be read. -/
  | started (size : Nat)
  /-- A token was read. -/
  | token (t : Token)
  /-- A fragment was found to accept only the empty word. -/
  | vanished (fragment : String)
  /-- A fragment was found to be a single terminal. -/
  | terminal (fragment : String)
  /-- A fragment was given a number, under which its automaton will be embedded. -/
  | recorded (fragment : String) (id : Nat)
  /-- A production was finished. -/
  | production (p : Production L)
  /-- An automaton was written as productions. -/
  | embedded (id productions nonterminals terminals : Nat)
  /-- The grammar is complete. -/
  | finished (start : Nonterminal) (written added : Nat)

namespace Event

variable {L : Type}

/-- How fine an event is. -/
def level : Event L → String
  | started _ | embedded .. | finished .. => "DEBUG"
  | token _ | vanished _ | terminal _ | recorded .. | production _ => "TRACE"

/-- What is said about an event. -/
def message : Event L → String
  | started size => "parsing grammar of " ++ size.repr ++ " bytes"
  | token t => "token " ++ t.kind.text ++ " \x60" ++ t.source ++ "\x60 at " ++ t.span.text
  | vanished fragment => "fragment \x60" ++ fragment ++ "\x60 is epsilon"
  | terminal fragment => "fragment \x60" ++ fragment ++ "\x60 is a terminal"
  | recorded fragment id =>
    "fragment \x60" ++ fragment ++ "\x60 is embedded as " ++ (Nonterminal.entry id).text
  | production p => "production " ++ p.text
  | embedded id productions nonterminals terminals =>
    "embedded " ++ (Nonterminal.entry id).text ++ " as " ++ productions.repr ++
      " productions over " ++ nonterminals.repr ++ " nonterminals and " ++ terminals.repr ++
      " terminals"
  | finished start written added =>
    "parsed grammar starting at " ++ start.text ++ ": " ++ written.repr ++ " written and " ++
      added.repr ++ " embedded productions"

/-- The line that an event leaves in a log. -/
def text (e : Event L) : String :=
  e.level ++ " " ++ e.message

end Event

end FragmentGrammar
