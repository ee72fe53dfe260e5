import FragmentGrammar.Grammar.Symbol

/-! # Context-free grammars

    A grammar is a start symbol and a list of productions in the order in which they
    were made.  Equality is as coarse as that of terminals: two grammars are equal when
    they differ at most in the source text of their terminals. -/

namespace FragmentGrammar

variable {L : Type}

/-- A production of `head`.  An empty body derives the empty word. -/
structure Production (L : Type) where
  head : Nonterminal
  body : List (Symbol L)

namespace Production

instance [BEq L] : BEq (Production L) where
  beq p q := p.head == q.head && p.body == q.body

theorem beq_iff [BEq L] {p q : Production L} :
    (p == q) = true ↔ p.head = q.head ∧ (p.body == q.body) = true := by
  show (p.head == q.head && p.body == q.body) = true ↔ _
  simp

/-- A production with an empty body. -/
def epsilon (head : Nonterminal) : Production L :=
  ⟨head, []⟩

/-- The body is empty. -/
def isEpsilon (p : Production L) : Bool :=
  p.body.isEmpty

/-- The symbols of a body, each behind a blank; an empty body shows as `ε`. -/
def bodyText : List (Symbol L) → String
  | [] => " ε"
  | body => String.join (body.map fun s => " " ++ s.text)

/-- A production as it is shown. -/
def text (p : Production L) : String :=
  p.head.text ++ " ->" ++ bodyText p.body

end Production

/-- A context-free grammar. -/
structure Grammar (L : Type) where
  start : Nonterminal
  productions : List (Production L)

namespace Grammar

instance [BEq L] : BEq (Grammar L) where
  beq g h := g.start == h.start && g.productions == h.productions

theorem beq_iff [BEq L] {g h : Grammar L} :
    (g == h) = true ↔ g.start = h.start ∧ (g.productions == h.productions) = true := by
  show (g.start == h.start && g.productions == h.productions) = true ↔ _
  simp

/-- The productions of one nonterminal. -/
def productionsOf (g : Grammar L) (n : Nonterminal) : List (Production L) :=
  g.productions.filter (·.head = n)

/-- The heads of the productions, each where it first appears. -/
def nonterminals (g : Grammar L) : List Nonterminal :=
  (g.productions.map (·.head)).eraseDups

/-- The terminals of the bodies, each where an equal one first appears. -/
def terminals [BEq L] (g : Grammar L) : List (Terminal L) :=
  (g.productions.flatMap fun p => p.body.filterMap Symbol.terminal?).eraseDups

/-- A grammar as it is shown: one line for each production. -/
def text (g : Grammar L) : String :=
  String.join (g.productions.map fun p => p.text ++ "\n")

end Grammar

end FragmentGrammar
