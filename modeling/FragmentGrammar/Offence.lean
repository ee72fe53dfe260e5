import FragmentGrammar.Automaton
import FragmentGrammar.Compiler
import FragmentGrammar.ParseError

/-! # Offending tokens

    Whether a token is out of place depends on the tokens before it and on what the
    compiler says about fragments, and on nothing that a reader would have to remember
    in between.  A source is refused for its first offending token. -/

namespace FragmentGrammar

variable {σ E A L : Type}

/-- The answers of a compiler to texts that it is asked one after the other. -/
def Compiler.consult (c : Compiler σ E A) : List String → σ → List (String × Except E A)
  | [], _ => []
  | text :: texts, s => (text, (c text s).1) :: consult c texts (c text s).2

/-- The fragments behind the first two tokens, each where it first occurs. -/
def fragmentsOf (ts : List Token) : List String :=
  (((ts.drop 2).filter (·.kind = .fragment)).map (·.source)).eraseDups

/-- The tokens behind the last bar or arrow. -/
def sinceBreak (before : List Token) : List Token :=
  (before.reverse.takeWhile fun t => t.kind ≠ .bar && t.kind ≠ .arrow).reverse

section Offence

variable [Automaton A L] [Label L]

/-- The fragment leaves nothing behind, by the answers of its compiler. -/
def vanishes (answers : List (String × Except E A)) (text : String) : Bool :=
  match answers.lookup text with
  | some (.ok a) => Automaton.acceptsOnlyEpsilon a
  | _ => false

/-- The error of a token that stands behind the tokens `before`, if it is out of
    place. -/
def offence (answers : List (String × Except E A)) (before : List Token) (t : Token) :
    Option (ParseError E) :=
  if t.kind = .unknown then some (.lexical ⟨t.source, t.span⟩)
  else
    match before with
    | [] =>
      if t.kind = .nonterminal then none
      else some (.syntactic (.expectedNonterminal t.kind t.source t.span))
    | [first] =>
      if t.kind = .arrow then none
      else some (.syntactic (.expectedArrow first.source t.kind t.source t.span))
    | first :: second :: more =>
      match t.kind with
      | .fragment =>
        match answers.lookup t.source with
        | some (.error e) => some (.fragment e)
        | _ => none
      | .arrow =>
        let previous := (second :: more).getLast (List.cons_ne_nil _ _)
        if previous.kind = .nonterminal then none
        else if (sinceBreak (first :: second :: more)).all fun u =>
            u.kind = .fragment && vanishes answers u.source then
          some (.syntactic (.emptyChain t.span))
        else some (.syntactic (.chainFromOther previous.kind previous.source t.span))
      | _ => none

/-- The error of the first token that is out of place, among those that stand behind the
    tokens `before`. -/
def firstOffence (answers : List (String × Except E A)) (before : List Token) :
    List Token → Option (ParseError E)
  | [] => none
  | t :: ts => (offence answers before t).or (firstOffence answers (before ++ [t]) ts)

end Offence

end FragmentGrammar
