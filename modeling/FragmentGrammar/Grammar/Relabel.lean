import FragmentGrammar.Grammar

/-! # Relabelled grammars

    Applying a function to every label of a grammar.  Names and the texts of terminals
    stay as they are. -/

namespace FragmentGrammar

variable {L M : Type}

/-- The terminal with `h` applied to its label. -/
def Terminal.relabel (h : L → M) (t : Terminal L) : Terminal M :=
  ⟨h t.label, t.source⟩

/-- The symbol with `h` applied to its label, if it has one. -/
def Symbol.relabel (h : L → M) : Symbol L → Symbol M
  | .nonterminal n => .nonterminal n
  | .terminal t => .terminal (t.relabel h)

/-- The production with `h` applied to every label. -/
def Production.relabel (h : L → M) (p : Production L) : Production M :=
  ⟨p.head, p.body.map (Symbol.relabel h)⟩

/-- The grammar with `h` applied to every label. -/
def Grammar.relabel (h : L → M) (g : Grammar L) : Grammar M :=
  ⟨g.start, g.productions.map (Production.relabel h)⟩

@[simp] theorem Symbol.relabel_nonterminal (h : L → M) (n : Nonterminal) :
    (Symbol.nonterminal n : Symbol L).relabel h = .nonterminal n := rfl

@[simp] theorem Symbol.relabel_terminal (h : L → M) (t : Terminal L) :
    (Symbol.terminal t).relabel h = .terminal (t.relabel h) := rfl

@[simp] theorem Symbol.relabel_id : (Symbol.relabel id : Symbol L → Symbol L) = id := by
  funext x
  cases x <;> rfl

@[simp] theorem Production.relabel_id :
    (Production.relabel id : Production L → Production L) = id := by
  funext p
  rw [Production.relabel, Symbol.relabel_id, List.map_id]
  rfl

end FragmentGrammar
