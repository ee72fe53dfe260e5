import FragmentGrammar.Automaton.Dense
import FragmentGrammar.Pattern

/-! # Compiling patterns

    A pattern is compiled item by item, from one current state on.  A plain item leads
    to a new state, a starred one loops on the current state, and one that is read at
    least once leads to a new state and loops there.  Behind the last item the current
    state is the only final one. -/

namespace FragmentGrammar

/-- The labels of compiled patterns. -/
abbrev ClassLabel := Option CharSet

/-- Why a pattern is not compiled. -/
inductive PatternError where
  /-- A class of this pattern is not closed. -/
  | unterminated (pattern : String)
  /-- The automaton has a state that does not exist. -/
  | invalid (e : BuildError)
  deriving DecidableEq

/-- What is said about a pattern that is not compiled. -/
def PatternError.message : PatternError → String
  | .unterminated pattern => "unterminated character class in \x60" ++ pattern ++ "\x60"
  | .invalid e => e.message

/-- An automaton under construction and the state that the next item starts from. -/
structure Tail where
  builder : DenseAutomaton.Builder ClassLabel
  current : Nat

namespace Tail

/-- Before the first item only the initial state is there. -/
def start : Tail :=
  ⟨.start false, 0⟩

/-- Leads to a new state under a label. -/
def advance (t : Tail) (l : ClassLabel) : Tail :=
  let grown := t.builder.addState false
  ⟨grown.2.addMove ⟨t.current, grown.1, l⟩, grown.1⟩

/-- Loops on the current state under a label. -/
def loop (t : Tail) (l : ClassLabel) : Tail :=
  { t with builder := t.builder.addMove ⟨t.current, t.current, l⟩ }

/-- Adds an item. -/
def add (t : Tail) (i : Item) : Tail :=
  match i.quantity with
  | .once => t.advance (some i.members)
  | .star => t.loop (some i.members)
  | .plus => (t.advance (some i.members)).loop (some i.members)

/-- The automaton that ends in the current state. -/
def close (t : Tail) : Except BuildError (DenseAutomaton ClassLabel) :=
  (t.builder.markFinal t.current).build

end Tail

/-- Compiles items. -/
def compileItems (is : List Item) : Except BuildError (DenseAutomaton ClassLabel) :=
  (is.foldl Tail.add .start).close

/-- Compiles a pattern.  An empty pair of parentheses stands for the empty word. -/
def compilePattern (pattern : String) : Except PatternError (DenseAutomaton ClassLabel) :=
  if pattern = "()" then .ok .epsilon
  else
    match readItems? pattern.toList with
    | none => .error (.unterminated pattern)
    | some is =>
      match compileItems is with
      | .error e => .error (.invalid e)
      | .ok a => .ok a

end FragmentGrammar
