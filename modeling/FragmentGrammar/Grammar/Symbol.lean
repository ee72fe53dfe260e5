import FragmentGrammar.Label

/-! # Symbols

    The nonterminals of a grammar are the names written in its source and, for every
    fragment that was turned into an automaton, one name for where the automaton is
    entered and one for each of its other states.  The three kinds never mix.  A
    terminal is a label together with the text that it came from; that text is shown but
    does not count when terminals are compared. -/

namespace FragmentGrammar

/-- A nonterminal. -/
inductive Nonterminal where
  /-- A name written in the source. -/
  | named (name : String)
  /-- Where the automaton with the number `id` is entered. -/
  | entry (id : Nat)
  /-- State `q` of the automaton with the number `id`. -/
  | state (id q : Nat)
  deriving DecidableEq

namespace Nonterminal

/-- A nonterminal as it stands in a displayed grammar. -/
def text : Nonterminal → String
  | named name => name
  | entry id => "<r" ++ id.repr ++ ">"
  | state id q => "<r" ++ id.repr ++ "." ++ q.repr ++ ">"

/-- Names come first, then entries, then states; each kind is ordered by its content. -/
instance : Ord Nonterminal where
  compare
    | named m, named n => compare m n
    | named _, _ => .lt
    | entry _, named _ => .gt
    | entry i, entry j => compare i j
    | entry _, state _ _ => .lt
    | state i p, state j q => (compare i j).then (compare p q)
    | state _ _, _ => .gt

/-- The nonterminals of a list in ascending order. -/
def sort (ns : List Nonterminal) : List Nonterminal :=
  ns.mergeSort fun m n => (compare m n).isLE

end Nonterminal

/-- A terminal: a label and the text that it came from. -/
structure Terminal (L : Type) where
  label : L
  source : String

namespace Terminal

variable {L : Type}

/-- Terminals are equal when their labels are. -/
instance [BEq L] : BEq (Terminal L) where
  beq s t := s.label == t.label

theorem beq_iff [BEq L] {s t : Terminal L} : (s == t) = true ↔ (s.label == t.label) = true :=
  Iff.rfl

instance [BEq L] [EquivBEq L] : EquivBEq (Terminal L) where
  rfl := beq_iff.mpr BEq.rfl
  symm h := beq_iff.mpr (BEq.symm (beq_iff.mp h))
  trans h₁ h₂ := beq_iff.mpr (BEq.trans (beq_iff.mp h₁) (beq_iff.mp h₂))

end Terminal

/-- A symbol in the body of a production. -/
inductive Symbol (L : Type) where
  | nonterminal (n : Nonterminal)
  | terminal (t : Terminal L)

namespace Symbol

variable {L : Type}

instance [BEq L] : BEq (Symbol L) where
  beq
    | nonterminal m, nonterminal n => m == n
    | terminal s, terminal t => s == t
    | _, _ => false

@[simp] theorem nonterminal_beq [BEq L] {m n : Nonterminal} :
    ((nonterminal m : Symbol L) == nonterminal n) = (m == n) := rfl

@[simp] theorem terminal_beq [BEq L] {s t : Terminal L} :
    ((terminal s : Symbol L) == terminal t) = (s == t) := rfl

@[simp] theorem nonterminal_beq_terminal [BEq L] {n : Nonterminal} {t : Terminal L} :
    ((nonterminal n : Symbol L) == terminal t) = false := rfl

@[simp] theorem terminal_beq_nonterminal [BEq L] {n : Nonterminal} {t : Terminal L} :
    ((terminal t : Symbol L) == nonterminal n) = false := rfl

instance [BEq L] [EquivBEq L] : EquivBEq (Symbol L) where
  rfl {a} := by cases a <;> simp
  symm {a b} h := by
    cases a <;> cases b <;> simp_all
    exact BEq.symm h
  trans {a b c} h₁ h₂ := by
    cases a <;> cases b <;> cases c <;> simp_all
    exact BEq.trans h₁ h₂

/-- The nonterminal, if the symbol is one. -/
def nonterminal? : Symbol L → Option Nonterminal
  | nonterminal n => some n
  | terminal _ => none

/-- The terminal, if the symbol is one. -/
def terminal? : Symbol L → Option (Terminal L)
  | nonterminal _ => none
  | terminal t => some t

/-- A symbol as it stands in a displayed grammar: a terminal shows its source text. -/
def text : Symbol L → String
  | nonterminal n => n.text
  | terminal t => t.source

end Symbol

end FragmentGrammar
