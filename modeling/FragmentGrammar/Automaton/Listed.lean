import FragmentGrammar.Automaton

/-! # Automata given by lists

    The plainest automaton is the four things that an automaton enumerates.  Nothing is
    checked, so the lists may repeat a move or mention states that are not listed.
    Rewriting the labels or the states of any automaton, item by item, gives one. -/

namespace FragmentGrammar

/-- An automaton that is nothing but its enumerations. -/
structure ListedAutomaton (L : Type) where
  initial : Nat
  states : List Nat
  finals : List Nat
  moves : List (Move L)

instance {L : Type} : Automaton (ListedAutomaton L) L where
  initial := ListedAutomaton.initial
  states := ListedAutomaton.states
  finals := ListedAutomaton.finals
  moves := ListedAutomaton.moves

instance {L : Type} : LawfulAutomaton (ListedAutomaton L) L where
  isFinal_eq _ _ := rfl
  stateCount_eq _ := rfl
  movesFrom_eq _ _ := rfl
  acceptsOnlyEpsilon_eq _ := rfl
  singleTerminal_eq _ := rfl

namespace ListedAutomaton

variable {A L : Type} [Automaton A L]

/-- What an automaton enumerates. -/
def ofAutomaton (a : A) : ListedAutomaton L :=
  ⟨Automaton.initial a, Automaton.states a, Automaton.finals a, Automaton.moves a⟩

/-- The automaton with `f` applied to every label, move by move. -/
def relabel {M : Type} (f : L → M) (a : ListedAutomaton L) : ListedAutomaton M :=
  ⟨a.initial, a.states, a.finals, a.moves.map fun m => ⟨m.source, m.target, f m.label⟩⟩

/-- The automaton with `f` applied to every state, wherever it is mentioned. -/
def renumber (f : Nat → Nat) (a : ListedAutomaton L) : ListedAutomaton L :=
  ⟨f a.initial, a.states.map f, a.finals.map f,
    a.moves.map fun m => ⟨f m.source, f m.target, m.label⟩⟩

end ListedAutomaton

end FragmentGrammar
