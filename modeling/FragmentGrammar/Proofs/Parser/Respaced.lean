import FragmentGrammar.Proofs.Lexer.Respaced
import FragmentGrammar.Proofs.Parser.Segmentation
import FragmentGrammar.Proofs.Parser.Translation

/-! # Only lexemes count

    A reader does not notice where its tokens stand, except in its errors
    (`Translation.unplacing`).  So sources with the same kinds and texts of tokens are
    parsed to one grammar with the same calls to the compiler, or refused for the same
    reason at two places; and which blanks separate tokens does not matter to their kinds
    and texts (`lexemes_determine_parse`). -/

namespace FragmentGrammar

variable {σ E A L : Type}

/-- The error without its place. -/
def ParseError.unplaced (e : ParseError E) : ParseError E :=
  e.relocate fun _ => ⟨0, 0⟩

/-- Tokens without their places are their lexemes. -/
theorem map_relocate_const (span : Span) (ts : List Token) :
    ts.map (Token.relocate fun _ => span) =
      (ts.map Token.lexeme).map fun x => ⟨x.1, x.2, span⟩ := by
  rw [List.map_map]
  rfl

@[simp] theorem Written.map_id : (Written.map id id : Written A L → Written A L) = id := by
  funext w
  rw [Written.map, Production.relabel_id, List.map_id]
  show Written.mk _ _ (w.recorded.map id) = w
  rw [List.map_id]

variable [Automaton A L] [Label L] {c : Compiler σ E A} {source source' : String}

/-- Places may be forgotten. -/
def Translation.unplacing (c : Compiler σ E A) : Translation c c where
  label := id
  automaton := id
  place _ := ⟨0, 0⟩
  state := id
  verdict := Verdict.of_id
  asked text s := by
    show _ = ((c text s).1.map id, (c text s).2)
    rw [Except.map_id]
    rfl

/-- Reading a source comes to what reading its tokens without their places comes to. -/
theorem read_unplaced (c : Compiler σ E A) (source : String) (s : σ) :
    ((Stage.opening : Stage A L).run c 0 ((tokens source).map (Token.relocate fun _ => ⟨0, 0⟩))
        s).result = (read c source s).result.mapError ParseError.unplaced ∧
      ((Stage.opening : Stage A L).run c 0 ((tokens source).map (Token.relocate fun _ => ⟨0, 0⟩))
        s).state = (read c source s).state := by
  obtain ⟨result, state⟩ :=
    (Translation.unplacing c).run (isStream_tokens source) source.utf8ByteSize 0 .opening s
  refine ⟨result.trans ?_, state⟩
  show ((read c source s).result.map (Written.map id id)).mapError _ = _
  rw [Written.map_id, Except.map_id]
  rfl

/-- Sources with the same lexemes are read to the same. -/
theorem read_of_lexemes (same : (tokens source).map Token.lexeme = (tokens source').map Token.lexeme)
    (c : Compiler σ E A) (s : σ) :
    (read c source s).result.mapError ParseError.unplaced =
        (read c source' s).result.mapError ParseError.unplaced ∧
      (read c source s).state = (read c source' s).state := by
  have tokens : (tokens source).map (Token.relocate fun _ => ⟨0, 0⟩) =
      (tokens source').map (Token.relocate fun _ => ⟨0, 0⟩) := by
    rw [map_relocate_const, map_relocate_const, same]
  obtain ⟨result, state⟩ := read_unplaced c source s
  obtain ⟨result', state'⟩ := read_unplaced c source' s
  rw [tokens] at result state
  exact ⟨result.symm.trans result', state.symm.trans state'⟩

theorem mapError_map {ε ε' α β : Type} (f : α → β) (g : ε → ε') (r : Except ε α) :
    (r.map f).mapError g = (r.mapError g).map f := by
  cases r <;> rfl

/-- Sources that are read to the same are parsed to the same. -/
theorem parse_of_read {s : σ} (same : (read c source s).result.mapError ParseError.unplaced =
      (read c source' s).result.mapError ParseError.unplaced ∧
      (read c source s).state = (read c source' s).state) :
    (parse c source s).result.mapError ParseError.unplaced =
        (parse c source' s).result.mapError ParseError.unplaced ∧
      (parse c source s).state = (parse c source' s).state := by
  constructor
  · rw [parse_result, parse_result, mapError_map, mapError_map, same.1]
  · rw [parse_state, parse_state, same.2]

/-- Sources with the same lexemes are parsed to the same. -/
theorem parse_of_lexemes
    (same : (tokens source).map Token.lexeme = (tokens source').map Token.lexeme)
    (c : Compiler σ E A) (s : σ) :
    (parse c source s).result.mapError ParseError.unplaced =
        (parse c source' s).result.mapError ParseError.unplaced ∧
      (parse c source s).state = (parse c source' s).state :=
  parse_of_read (read_of_lexemes same c s)

/-- The texts of the tokens of a source, with any blanks between them and at least one,
    have the lexemes of the source, also where an unknown character ends them.  Texts that
    match the patterns of kinds come back as lexemes of these kinds, and the end of the
    text behind them.  And sources with the same lexemes are parsed to the very same
    grammar, or refused for the same reason at two places; the compiler is called for the
    same texts, and ends in the same state. -/
theorem lexemes_determine_parse (c : Compiler σ E A) :
    (∀ source respaced, IsSpaced (spelled ((tokens source).map Token.lexeme)) respaced →
      (tokens respaced).map Token.lexeme = (tokens source).map Token.lexeme) ∧
    (∀ xs : List (TokenKind × String), (∀ x ∈ xs, x.1.Matches x.2.toList) →
      ∀ source, IsSpaced (xs.map (·.2)) source →
        (tokens source).map Token.lexeme = xs ++ [(.stop, "")]) ∧
    ∀ source source', (tokens source).map Token.lexeme = (tokens source').map Token.lexeme →
      ∀ s, (parse c source s).result.mapError ParseError.unplaced =
          (parse c source' s).result.mapError ParseError.unplaced ∧
        (parse c source s).state = (parse c source' s).state ∧
        (parse c.recorded source (s, [])).state = (parse c.recorded source' (s, [])).state := by
  refine ⟨?_, ?_, ?_⟩
  · intro source respaced spaced
    exact (isSpelling_tokens source).tokens_eq spaced
  · intro xs matched source spaced
    refine (IsSpelling.of_matches matched).tokens_eq ?_
    rw [spelled_of_matches matched]
    exact spaced
  · intro source source' same s
    obtain ⟨result, state⟩ := parse_of_lexemes same c s
    exact ⟨result, state, (parse_of_lexemes same c.recorded (s, [])).2⟩

/-- Other blanks, and none where none are needed: the lexemes stay, up to the dash that
    ends the stream, and so does the error. -/
theorem lexemes_determine_parse_dash :
    (tokens "S\n->  a |\u3000- ").map Token.lexeme =
      [(.nonterminal, "S"), (.arrow, "->"), (.fragment, "a"), (.bar, "|"), (.unknown, "-")] ∧
    (tokens "A->\t| é").map Token.lexeme =
      [(.nonterminal, "A->"), (.bar, "|"), (.fragment, "é"), (.stop, "")] ∧
    (parse letters "S\n->  a |\u3000- " ()).result.mapError ParseError.unplaced =
      (parse letters "S ->a |-x" ()).result.mapError ParseError.unplaced := by
  obtain ⟨again, spelled, parsed⟩ := lexemes_determine_parse letters
  have lexemes : (tokens "S ->a |-x").map Token.lexeme =
      [(.nonterminal, "S"), (.arrow, "->"), (.fragment, "a"), (.bar, "|"), (.unknown, "-")] := by
    decide +kernel
  have spaced : IsSpaced ["S", "->", "a", "|", "-"] "S\n->  a |\u3000- " :=
    ⟨["", "\n", "  ", " ", "\u3000"], " ", ⟨rfl, by decide, by decide, by decide⟩, by decide⟩
  have same := again "S ->a |-x" "S\n->  a |\u3000- " (by rw [lexemes]; exact spaced)
  have spaced' : IsSpaced ["A->", "|", "é"] "A->\t| é" :=
    ⟨["", "\t", " "], "", ⟨rfl, by decide, by decide, by decide⟩, by decide⟩
  have listed := spelled [(.nonterminal, "A->"), (.bar, "|"), (.fragment, "é")] (by decide) _
    spaced'
  exact ⟨same.trans lexemes, listed, (parsed _ _ same ()).1⟩

end FragmentGrammar
