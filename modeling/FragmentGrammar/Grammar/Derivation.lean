import FragmentGrammar.Grammar

/-! # Derivations

    What a sequence of symbols stands for, given what the single symbols may be replaced
    by.  A symbol is either spelled as a word of its own or replaced by the body of one
    of its rules; a sequence spells the words of its symbols one after the other.  The
    rules and the spellings are parameters, so the same notion serves a grammar of
    productions and a grammar as it is written in a source. -/

namespace FragmentGrammar

/-- `Spells rule word xs w`: the symbols `xs` can be replaced until they spell `w`.
    `rule x body` says that `x` may be replaced by `body`, and `word x u` that `x`
    spells `u` as it stands. -/
inductive Spells {X L : Type} (rule : X → List X → Prop) (word : X → List L → Prop) :
    List X → List L → Prop
  /-- No symbols spell the empty word. -/
  | nil : Spells rule word [] []
  /-- The first symbol stands for a word. -/
  | word {x : X} {xs : List X} {u v : List L} :
      word x u → Spells rule word xs v → Spells rule word (x :: xs) (u ++ v)
  /-- The first symbol is replaced. -/
  | rule {x : X} {body xs : List X} {u v : List L} :
      rule x body → Spells rule word body u → Spells rule word xs v →
      Spells rule word (x :: xs) (u ++ v)

variable {L : Type}

/-- A nonterminal may be replaced by the body of each of its productions. -/
def Production.Replaces (ps : List (Production L)) (x : Symbol L) (body : List (Symbol L)) :
    Prop :=
  ∃ p ∈ ps, x = .nonterminal p.head ∧ body = p.body

/-- A terminal spells its label. -/
def Terminal.Spelled (x : Symbol L) (w : List L) : Prop :=
  ∃ t, x = .terminal t ∧ w = [t.label]

/-- The symbols `xs` derive the labels `w` with the productions `ps`. -/
def Derives (ps : List (Production L)) (xs : List (Symbol L)) (w : List L) : Prop :=
  Spells (Production.Replaces ps) Terminal.Spelled xs w

/-- The nonterminal `n` derives the labels `w` in `g`. -/
def Grammar.Generates (g : Grammar L) (n : Nonterminal) (w : List L) : Prop :=
  Derives g.productions [.nonterminal n] w

end FragmentGrammar
