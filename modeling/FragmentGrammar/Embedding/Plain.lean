import FragmentGrammar.Embedding

/-! # Blocks without tables

    What the block of an automaton is, production by production.  The name of a state
    depends on the state alone, and the terminal of a label on the first move with an
    equal label; nothing is handed on from one production to the next. -/

namespace FragmentGrammar

variable {A L : Type} [Automaton A L]

/-- The name of state `q` in the block with the number `id`. -/
def stateName (id : Nat) (a : A) (q : Nat) : Nonterminal :=
  if q = Automaton.initial a then .entry id else .state id q

variable [Label L]

/-- The label that speaks for all labels equal to `l`: that of the first move which reads
    one of them. -/
def representative (a : A) (l : L) : L :=
  (((Automaton.moves a).filter (!·.isEpsilon)).map (·.label) |>.find? (· == l)).getD l

/-- The terminal of a label, with the written form of its representative. -/
def labelTerminal (a : A) (l : L) : Terminal L :=
  ⟨representative a l, Literal.text (representative a l)⟩

/-- The production of a move. -/
def moveProduction (id : Nat) (a : A) (m : Move L) : Production L :=
  ⟨stateName id a m.source,
    (if m.isEpsilon then [] else [.terminal (labelTerminal a m.label)]) ++
      [.nonterminal (stateName id a m.target)]⟩

/-- The block of an automaton: a production for every move and behind them one for every
    final state. -/
def plainBlock (id : Nat) (a : A) : List (Production L) :=
  (Automaton.moves a).map (moveProduction id a) ++
    (Automaton.finals a).map fun q => .epsilon (stateName id a q)

end FragmentGrammar
