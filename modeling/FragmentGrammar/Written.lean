import FragmentGrammar.Embedding
import FragmentGrammar.Event

/-! # From written productions to a grammar

    Reading a source leaves the productions that are written in it and the automata that
    they mention by number.  The grammar holds both: first the written productions, then
    the block of every automaton, in the order of the numbers. -/

namespace FragmentGrammar

variable {A L : Type}

/-- What is written in a source, before the automata that it mentions are embedded. -/
structure Written (A L : Type) where
  start : Nonterminal
  productions : List (Production L)
  /-- The automata to be embedded, with their numbers. -/
  recorded : List (Nat × A)

namespace Written

variable [Automaton A L] [Label L]

/-- The recorded automata written as productions, each with its number. -/
def blocks (w : Written A L) : List (Nat × Embedding L) :=
  w.recorded.map fun r => (r.1, Embedding.of r.1 r.2)

/-- The productions of the recorded automata. -/
def embedded (w : Written A L) : List (Production L) :=
  w.blocks.flatMap fun b => b.2.productions

/-- The productions of the recorded automata are their blocks, one behind the other. -/
theorem embedded_eq (w : Written A L) :
    w.embedded = w.recorded.flatMap fun r => embed r.1 r.2 := by
  rw [embedded, blocks, List.flatMap_map]
  rfl

/-- The written productions and behind them those of the recorded automata. -/
def grammar (w : Written A L) : Grammar L :=
  ⟨w.start, w.productions ++ w.embedded⟩

/-- What is told when the grammar is completed: the size of every block and of the
    whole. -/
def trace (w : Written A L) : List (Event L) :=
  w.blocks.map (fun b => .embedded b.1 b.2.productions.length b.2.table.names.length
    b.2.table.terminals.length) ++ [.finished w.start w.productions.length w.embedded.length]

end Written

end FragmentGrammar
