/-! # Fragment compilers

    What turns a fragment into an automaton is the caller's business.  A compiler may
    keep a state between its calls, so the same text may be answered differently the
    next time, and it may fail with an error of its own. -/

namespace FragmentGrammar

/-- A compiler with states `σ`, errors `E` and automata `A`. -/
abbrev Compiler (σ E A : Type) := String → σ → Except E A × σ

namespace Compiler

variable {σ E A : Type}

/-- A compiler that answers by the text alone. -/
def ofFunction (f : String → Except E A) : Compiler Unit E A :=
  fun text s => (f text, s)

/-- The same compiler, which also keeps its calls with their answers, in order. -/
def recorded (c : Compiler σ E A) : Compiler (σ × List (String × Except E A)) E A :=
  fun text s =>
    let r := c text s.1
    (r.1, r.2, s.2 ++ [(text, r.1)])

end Compiler

/-- A compiler written down as a table.  Each text of the table has a list of answers,
    given out one per call; the last of them stays. -/
structure Script (E A : Type) where
  /-- The texts with their answers. -/
  table : List (String × List (Except E A))
  /-- The answer for a text that has none in the table. -/
  otherwise : String → Except E A

namespace Script

variable {E A : Type}

/-- The answer to the call for `text` that `earlier` calls for it went before. -/
def answer (s : Script E A) (text : String) (earlier : Nat) : Except E A :=
  match s.table.lookup text with
  | some answers => (answers[earlier]?.or answers.getLast?).getD (s.otherwise text)
  | none => s.otherwise text

/-- The compiler that a script describes.  Its state is the list of its calls. -/
def compiler (s : Script E A) : Compiler (List String) E A :=
  fun text calls => (s.answer text (calls.count text), calls ++ [text])

end Script

end FragmentGrammar
