import FragmentGrammar.Automaton
import FragmentGrammar.Grammar

/-! # Automata as productions

    An automaton becomes a right-linear block of productions.  Its initial state is
    called by the number of the block and every other state by its own name; a move from
    `p` to `q` under `a` becomes `p -> a q`, a move that reads nothing `p -> q`, and a
    final state `f` gets `f -> ε`.  Two tables are filled on the way: the names given to
    states, and one terminal for each label met, which equal labels share. -/

namespace FragmentGrammar

variable {A L : Type}

/-- The names and terminals given out so far. -/
structure NameTable (L : Type) where
  names : List (Nat × Nonterminal)
  terminals : List (Terminal L)

namespace NameTable

/-- The tables of a block before its first production: only the initial state has a
    name. -/
def start (id initial : Nat) : NameTable L :=
  ⟨[(initial, .entry id)], []⟩

/-- The name of state `q`, given out when the state is first met. -/
def name (id : Nat) (t : NameTable L) (q : Nat) : Nonterminal × NameTable L :=
  match t.names.lookup q with
  | some n => (n, t)
  | none => (.state id q, { t with names := t.names ++ [(q, .state id q)] })

/-- The productions of final states, in their order. -/
def ofFinals (id : Nat) (t : NameTable L) : List Nat → List (Production L) × NameTable L
  | [] => ([], t)
  | q :: qs =>
    let first := t.name id q
    let rest := ofFinals id first.2 qs
    (.epsilon first.1 :: rest.1, rest.2)

/-- Every final state has its production. -/
theorem length_ofFinals (id : Nat) (t : NameTable L) (qs : List Nat) :
    (t.ofFinals id qs).1.length = qs.length := by
  induction qs generalizing t with
  | nil => rfl
  | cons q qs ih => simp [ofFinals, ih]

variable [Label L]

/-- The terminal of a label, made when no equal label was met before. -/
def terminal (t : NameTable L) (l : L) : Terminal L × NameTable L :=
  match t.terminals.find? (·.label == l) with
  | some x => (x, t)
  | none =>
    let x := ⟨l, Literal.text l⟩
    (x, { t with terminals := t.terminals ++ [x] })

/-- The production of a move. -/
def ofMove (id : Nat) (t : NameTable L) (m : Move L) : Production L × NameTable L :=
  let source := t.name id m.source
  let target := source.2.name id m.target
  if m.isEpsilon then (⟨source.1, [.nonterminal target.1]⟩, target.2)
  else
    let label := target.2.terminal m.label
    (⟨source.1, [.terminal label.1, .nonterminal target.1]⟩, label.2)

/-- The productions of moves, in their order. -/
def ofMoves (id : Nat) (t : NameTable L) : List (Move L) → List (Production L) × NameTable L
  | [] => ([], t)
  | m :: ms =>
    let first := t.ofMove id m
    let rest := ofMoves id first.2 ms
    (first.1 :: rest.1, rest.2)

/-- Every move has its production. -/
theorem length_ofMoves (id : Nat) (t : NameTable L) (ms : List (Move L)) :
    (t.ofMoves id ms).1.length = ms.length := by
  induction ms generalizing t with
  | nil => rfl
  | cons m ms ih => simp [ofMoves, ih]

end NameTable

/-- An automaton written as productions, with the tables that were filled on the way. -/
structure Embedding (L : Type) where
  productions : List (Production L)
  table : NameTable L

/-- Writes the automaton `a` as the block with the number `id`. -/
def Embedding.of [Label L] [Automaton A L] (id : Nat) (a : A) : Embedding L :=
  let moves := (NameTable.start id (Automaton.initial a)).ofMoves id (Automaton.moves a)
  let finals := moves.2.ofFinals id (Automaton.finals a)
  ⟨moves.1 ++ finals.1, finals.2⟩

/-- The productions of the automaton `a` as the block with the number `id`. -/
def embed [Label L] [Automaton A L] (id : Nat) (a : A) : List (Production L) :=
  (Embedding.of id a).productions

/-- A block has as many productions as there are moves and final states. -/
theorem length_embed [Label L] [Automaton A L] (id : Nat) (a : A) :
    (embed id a).length = (Automaton.moves a).length + (Automaton.finals a).length := by
  simp [embed, Embedding.of, NameTable.length_ofMoves, NameTable.length_ofFinals]

end FragmentGrammar
