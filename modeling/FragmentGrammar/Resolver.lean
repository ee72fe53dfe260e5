import FragmentGrammar.Automaton
import FragmentGrammar.Compiler
import FragmentGrammar.Event

/-! # Resolving fragments

    A fragment in a body stands for what its automaton accepts.  An automaton that
    accepts only the empty word leaves nothing behind; one that is a single labelled
    move becomes a terminal; any other gets the next free number and is kept, to be
    written as productions of its own later.  Each text is compiled once: the answer is
    remembered, unless the compiler failed. -/

namespace FragmentGrammar

variable {σ E A L : Type} [Automaton A L] [Label L]

/-- What a fragment is, judged by its automaton. -/
inductive Verdict (L : Type) where
  /-- It accepts only the empty word. -/
  | vanishes
  /-- It is one move with this label. -/
  | terminal (l : L)
  /-- It is neither. -/
  | embeds

/-- Judges an automaton.  The empty word is asked about first. -/
def Verdict.of (a : A) : Verdict L :=
  -- an automaton of two states may accept nothing but the empty word as well
  if Automaton.acceptsOnlyEpsilon a then .vanishes
  else
    match Automaton.singleTerminal a with
    | some l => .terminal l
    | none => .embeds

/-- What is known about the fragments of a source. -/
structure Resolver (A L : Type) where
  /-- The texts resolved so far, each with the symbol that it left, if any. -/
  memo : List (String × Option (Symbol L))
  /-- The automata to be embedded, with their numbers. -/
  recorded : List (Nat × A)

namespace Resolver

/-- Nothing is known. -/
def empty : Resolver A L :=
  ⟨[], []⟩

/-- The symbol that `text` leaves once its automaton is known to be `a`, what is known
    then, and what is told about it. -/
def learn (r : Resolver A L) (text : String) (a : A) :
    Option (Symbol L) × Resolver A L × Event L :=
  match Verdict.of a with
  | .vanishes => (none, { r with memo := r.memo ++ [(text, none)] }, .vanished text)
  | .terminal l =>
    let symbol := some (.terminal ⟨l, text⟩)
    (symbol, { r with memo := r.memo ++ [(text, symbol)] }, .terminal text)
  | .embeds =>
    let id := r.recorded.length
    let symbol := some (.nonterminal (.entry id))
    (symbol, ⟨r.memo ++ [(text, symbol)], r.recorded ++ [(id, a)]⟩, .recorded text id)

end Resolver

/-- What resolving a fragment comes to. -/
structure Resolution (σ E A L : Type) where
  /-- The symbol that the fragment leaves, if any, or why there is none to tell. -/
  answer : Except E (Option (Symbol L))
  resolver : Resolver A L
  state : σ
  trace : List (Event L)

/-- Resolves a fragment.  The compiler is called unless the text was resolved before;
    when it fails, nothing is remembered. -/
def Resolver.resolve (c : Compiler σ E A) (r : Resolver A L) (text : String) (s : σ) :
    Resolution σ E A L :=
  match r.memo.lookup text with
  | some symbol => ⟨.ok symbol, r, s, []⟩
  | none =>
    match c text s with
    | (.error e, s') => ⟨.error e, r, s', []⟩
    | (.ok a, s') =>
      let learnt := r.learn text a
      ⟨.ok learnt.1, learnt.2.1, s', [learnt.2.2]⟩

section Resolve

variable {c : Compiler σ E A} {r : Resolver A L} {text : String} {s s' : σ}

/-- A text that was resolved before is looked up. -/
theorem Resolver.resolve_of_known {symbol : Option (Symbol L)}
    (h : r.memo.lookup text = some symbol) : r.resolve c text s = ⟨.ok symbol, r, s, []⟩ := by
  simp [Resolver.resolve, h]

/-- A failure changes the state of the compiler and nothing else. -/
theorem Resolver.resolve_of_error {e : E} (h : r.memo.lookup text = none)
    (hc : c text s = (.error e, s')) : r.resolve c text s = ⟨.error e, r, s', []⟩ := by
  simp [Resolver.resolve, h, hc]

/-- An automaton that the compiler gives is learnt. -/
theorem Resolver.resolve_of_ok {a : A} (h : r.memo.lookup text = none)
    (hc : c text s = (.ok a, s')) :
    r.resolve c text s =
      ⟨.ok (r.learn text a).1, (r.learn text a).2.1, s', [(r.learn text a).2.2]⟩ := by
  simp [Resolver.resolve, h, hc]

end Resolve

/-- Resolves fragments one after the other, going on after a failure.  Each answer comes
    with the number of automata recorded by then. -/
def Resolver.resolveAll (c : Compiler σ E A) (r : Resolver A L) :
    List String → σ → List (Except E (Option (Symbol L)) × Nat) × Resolver A L × σ
  | [], s => ([], r, s)
  | text :: texts, s =>
    let first := r.resolve c text s
    let rest := resolveAll c first.resolver texts first.state
    ((first.answer, first.resolver.recorded.length) :: rest.1, rest.2)

end FragmentGrammar
