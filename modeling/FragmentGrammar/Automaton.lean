import FragmentGrammar.Automaton.Closure
import FragmentGrammar.Move

/-! # Automata

    An automaton is anything that enumerates states, final states and moves.  Nothing
    is asked of the enumerations: they may repeat themselves, mention states that are
    not listed, and come in any order.  Two questions are asked of an automaton before
    it is written into a grammar: whether the empty word is all that it accepts, and
    whether it is one labelled move and nothing else. -/

namespace FragmentGrammar

namespace Automaton

/-! ## Questions about moves -/

section Moves

variable {L : Type}

/-- The edges that moves follow. -/
def edges (ms : List (Move L)) : List (Nat × Nat) :=
  ms.map fun m => (m.source, m.target)

/-- The edges that moves follow, taken backwards. -/
def backEdges (ms : List (Move L)) : List (Nat × Nat) :=
  ms.map fun m => (m.target, m.source)

variable [Label L]

/-- The edges of the moves that read nothing. -/
def silentEdges (ms : List (Move L)) : List (Nat × Nat) :=
  ms.filterMap fun m => if m.isEpsilon then some (m.source, m.target) else none

/-- A final state is reached from the initial one without reading anything. -/
def acceptsEmpty (ms : List (Move L)) (initial : Nat) (isFinal : Nat → Bool) : Bool :=
  (closure (silentEdges ms) [initial]).any isFinal

/-- Some move that reads a label lies on a way from the initial state to a final one. -/
def readsSomething (ms : List (Move L)) (initial : Nat) (finals : List Nat) : Bool :=
  let reached := closure (edges ms) [initial]
  let productive := closure (backEdges ms) finals
  ms.any fun m => !m.isEpsilon && reached.contains m.source && productive.contains m.target

/-- The label of the only move, if the moves are a single step from the initial state to
    the only final one, and these two are all states. -/
def soleLabel (ms : List (Move L)) (initial : Nat) (finals : List Nat) (count : Nat) : Option L :=
  if count = 2 then
    -- the enumerations count: a final state listed twice is not the only one
    match ms, finals with
    | [m], [q] =>
      if !m.isEpsilon && m.source = initial && !m.isLoop && q = m.target then some m.label
      else none
    | _, _ => none
  else none

end Moves

end Automaton

/-! ## Automata of any kind -/

/-- Types whose values are automata over the labels `L`.  They have to enumerate; the
    other questions they may answer in their own way, and by enumeration if they do not. -/
class Automaton (A : Type) (L : outParam Type) where
  /-- The state that every word starts in. -/
  initial : A → Nat
  /-- The states, as enumerated. -/
  states : A → List Nat
  /-- The final states, as enumerated. -/
  finals : A → List Nat
  /-- The moves, as enumerated. -/
  moves : A → List (Move L)
  /-- A word may end in the state. -/
  isFinal : A → Nat → Bool := fun a q => (finals a).contains q
  /-- How many states are enumerated. -/
  stateCount : A → Nat := fun a => (states a).length
  /-- The moves that leave a state, in the order of the enumeration. -/
  movesFrom : A → Nat → List (Move L) := fun a q => (moves a).filter (·.source = q)
  /-- The empty word is accepted, and no move helps to accept another one. -/
  acceptsOnlyEpsilon [Label L] (a : A) : Bool :=
    Automaton.acceptsEmpty (moves a) (initial a) (isFinal a) &&
      !Automaton.readsSomething (moves a) (initial a) (finals a)
  /-- The label that is read, if the automaton is a single terminal. -/
  singleTerminal [Label L] (a : A) : Option L :=
    Automaton.soleLabel (moves a) (initial a) (finals a) (stateCount a)

/-- Automata that answer every question as their enumerations do. -/
class LawfulAutomaton (A : Type) (L : outParam Type) [Automaton A L] : Prop where
  /-- A state is final when it is enumerated as one. -/
  isFinal_eq (a : A) (q : Nat) : Automaton.isFinal a q = (Automaton.finals a).contains q
  /-- The count of states is the length of their enumeration. -/
  stateCount_eq (a : A) : Automaton.stateCount a = (Automaton.states a).length
  /-- The moves that leave a state are picked from all moves. -/
  movesFrom_eq (a : A) (q : Nat) :
    Automaton.movesFrom a q = (Automaton.moves a).filter (·.source = q)
  /-- The empty word is all that is accepted when the moves say so. -/
  acceptsOnlyEpsilon_eq [Label L] (a : A) : Automaton.acceptsOnlyEpsilon a =
    (Automaton.acceptsEmpty (Automaton.moves a) (Automaton.initial a) (Automaton.isFinal a) &&
      !Automaton.readsSomething (Automaton.moves a) (Automaton.initial a) (Automaton.finals a))
  /-- A single terminal is the label of the only move. -/
  singleTerminal_eq [Label L] (a : A) : Automaton.singleTerminal a =
    Automaton.soleLabel (Automaton.moves a) (Automaton.initial a) (Automaton.finals a)
      (Automaton.stateCount a)

/-- Two kinds of automata side by side are one kind. -/
instance {A B L : Type} [Automaton A L] [Automaton B L] : Automaton (A ⊕ B) L where
  initial := Sum.elim Automaton.initial Automaton.initial
  states := Sum.elim Automaton.states Automaton.states
  finals := Sum.elim Automaton.finals Automaton.finals
  moves := Sum.elim Automaton.moves Automaton.moves
  isFinal := Sum.elim Automaton.isFinal Automaton.isFinal
  stateCount := Sum.elim Automaton.stateCount Automaton.stateCount
  movesFrom := Sum.elim Automaton.movesFrom Automaton.movesFrom
  acceptsOnlyEpsilon := Sum.elim Automaton.acceptsOnlyEpsilon Automaton.acceptsOnlyEpsilon
  singleTerminal := Sum.elim Automaton.singleTerminal Automaton.singleTerminal

instance {A B L : Type} [Automaton A L] [Automaton B L] [LawfulAutomaton A L]
    [LawfulAutomaton B L] : LawfulAutomaton (A ⊕ B) L where
  isFinal_eq
    | .inl a, q => LawfulAutomaton.isFinal_eq a q
    | .inr b, q => LawfulAutomaton.isFinal_eq b q
  stateCount_eq
    | .inl a => LawfulAutomaton.stateCount_eq a
    | .inr b => LawfulAutomaton.stateCount_eq b
  movesFrom_eq
    | .inl a, q => LawfulAutomaton.movesFrom_eq a q
    | .inr b, q => LawfulAutomaton.movesFrom_eq b q
  acceptsOnlyEpsilon_eq
    | .inl a => LawfulAutomaton.acceptsOnlyEpsilon_eq a
    | .inr b => LawfulAutomaton.acceptsOnlyEpsilon_eq b
  singleTerminal_eq
    | .inl a => LawfulAutomaton.singleTerminal_eq a
    | .inr b => LawfulAutomaton.singleTerminal_eq b

end FragmentGrammar
