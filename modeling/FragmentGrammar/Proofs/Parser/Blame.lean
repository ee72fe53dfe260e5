import FragmentGrammar.Proofs.Lexer.Positions
import FragmentGrammar.Proofs.Parser.Segmentation

/-! # Errors say where they are

    An error that is not the compiler's is about one token, the first that is out of place.
    It gives the place and the text of that token, and where it tells of another token, that
    is the first of the source or the one directly in front (`ParseError.Blames`).  A chain
    is refused for the token in front of its arrow only when that is a fragment: behind a
    break the body is empty, and behind a name nothing is wrong (`Draft.Follows.blames`). -/

namespace FragmentGrammar

variable {σ E A L : Type}

/-- `e.Blames before t`: what the error `e` says about the token `t` behind the tokens
    `before`. -/
inductive ParseError.Blames : List Token → Token → ParseError E → Prop
  /-- A dash that starts no arrow. -/
  | unknown {before : List Token} {t : Token} (kind : t.kind = .unknown) (dash : t.source = "-") :
      Blames before t (.lexical ⟨"-", t.span⟩)
  /-- The first token, which is no name. -/
  | first {t : Token} (kind : t.kind ≠ .nonterminal) :
      Blames [] t (.syntactic (.expectedNonterminal t.kind t.source t.span))
  /-- The second token, which is no arrow, with the text of the first. -/
  | second {first t : Token} (kind : t.kind ≠ .arrow) :
      Blames [first] t (.syntactic (.expectedArrow first.source t.kind t.source t.span))
  /-- A later arrow with an empty body before it. -/
  | empty {before : List Token} {t : Token} (kind : t.kind = .arrow) (arrow : t.source = "->") :
      Blames before t (.syntactic (.emptyChain t.span))
  /-- A later arrow directly behind a fragment, with the text of the fragment. -/
  | other {before : List Token} {previous t : Token} (kind : t.kind = .arrow)
      (arrow : t.source = "->") (fragment : previous.kind = .fragment) :
      Blames (before ++ [previous]) t
        (.syntactic (.chainFromOther .fragment previous.source t.span))

variable [Automaton A L] [Label L]
variable {c : Compiler σ E A} {s s₀ : σ} {source : String} {ts before : List Token} {t : Token}
variable {answers : List (String × Except E A)} {e : ParseError E}

/-- An unknown token is blamed wherever it stands. -/
theorem blames_of_unknown (stands : t.Stands source) (hk : t.kind = .unknown)
    (offends : offence answers before t = some e) : e.Blames before t := by
  have dash := stands.source_of_unknown hk
  rw [offence_of_unknown hk, dash] at offends
  obtain rfl := Option.some.inj offends
  exact .unknown hk dash

/-- Behind the first arrow, only an arrow is blamed for its place, and with it nothing but a
    fragment. -/
theorem Draft.Follows.blames {d : Draft A L} {meaning : String → Option (Symbol L)}
    (follows : d.Follows meaning before) (stands : t.Stands source)
    (offends : offence answers before t = some e) (own : ∀ x, e ≠ .fragment x) :
    e.Blames before t := by
  have long := follows.two_le_length
  cases hk : t.kind with
  | nonterminal =>
      rw [offence_of_quiet long (Or.inl hk)] at offends
      cases offends
  | bar =>
      rw [offence_of_quiet long (Or.inr (Or.inl hk))] at offends
      cases offends
  | stop =>
      rw [offence_of_quiet long (Or.inr (Or.inr hk))] at offends
      cases offends
  | unknown => exact blames_of_unknown stands hk offends
  | fragment =>
      rw [offence_of_fragment long hk] at offends
      obtain ⟨x, -, rfl⟩ := Option.map_eq_some_iff.mp offends
      exact absurd rfl (own x)
  | arrow =>
      have arrow := stands.source_of_arrow hk
      obtain ⟨pre, split⟩ := List.getLast?_eq_some_iff.mp follows.previous
      rw [offence_of_arrow long follows.previous hk] at offends
      by_cases named : d.previous.kind = .nonterminal
      · rw [if_pos named] at offends
        cases offends
      rw [if_neg named] at offends
      by_cases breaks : d.previous.kind.isBreak = true
      · -- nothing stands between a break and the arrow
        have none : sinceBreak before = [] := by
          rw [split]
          exact sinceBreak_concat_of_break pre breaks
        rw [none, List.all_nil, if_pos rfl] at offends
        obtain rfl := Option.some.inj offends
        exact .empty hk arrow
      · obtain ⟨words, last⟩ := follows.sinceBreak_eq (Bool.not_eq_true _ ▸ breaks)
        have word : d.previous.kind.isWord = true := by
          apply follows.words
          rw [last]
          exact List.mem_append_right _ List.mem_cons_self
        have fragment : d.previous.kind = .fragment := by
          simpa [TokenKind.isWord, named] using word
        split at offends
        next =>
          obtain rfl := Option.some.inj offends
          exact .empty hk arrow
        next =>
          obtain rfl := Option.some.inj offends
          rw [split, fragment]
          exact .other hk arrow fragment

/-- Wherever a reader has come to, a token that is out of place is blamed for it. -/
theorem Stage.Reflects.blames {stage : Stage A L} (h : stage.Reflects c s₀ ts before s)
    (stands : t.Stands source) (offends : offence answers before t = some e)
    (own : ∀ x, e ≠ .fragment x) : e.Blames before t := by
  by_cases unknown : t.kind = .unknown
  · exact blames_of_unknown stands unknown offends
  cases h with
  | opening =>
      rw [offence_first unknown] at offends
      split at offends
      next => cases offends
      next other =>
        obtain rfl := Option.some.inj offends
        exact .first other
  | @named first hf =>
      rw [offence_second unknown] at offends
      split at offends
      next => cases offends
      next other =>
        obtain rfl := Option.some.inj offends
        exact .second other
  | rules follows _ => exact follows.blames stands offends own

/-- An error of the lexer or of the order of tokens is about the first token that is out
    of place.  Its place is a range of the source between characters, and what stands there
    is the text that is reported. -/
theorem parse_error_blames (h : (parse c source s).result = .error e)
    (own : ∀ x, e ≠ .fragment x) :
    ∃ (before after : List Token) (t : Token), tokens source = before ++ t :: after ∧
      Blameless (c.consult (fragmentsOf (tokens source)) s) before ∧
      offence (c.consult (fragmentsOf (tokens source)) s) before t = some e ∧
      e.Blames before t ∧ t.span.Within source ∧ t.span.slice source = t.source := by
  obtain ⟨before, t, after, stage, s', trace, stops⟩ := exists_stopsAt c source s
  have offends := stops.offends
  rw [parse_eq_error_iff.mp h] at offends
  have stands : t.Stands source := stands_of_mem (by simp [stops.split])
  exact ⟨before, after, t, stops.split, stops.blameless, offends,
    stops.reflects.blames stands offends own, stands.within, stands.slice_eq⟩

/-- Behind a fragment that vanished, the arrow is refused for the fragment all the same, and
    letters of two bytes do not move its place. -/
theorem parse_error_blames_vanished :
    (parse letters "S -> é ~ -> b" ()).result =
        .error (.syntactic (.chainFromOther .fragment "~" ⟨10, 12⟩)) ∧
      Span.Within ⟨10, 12⟩ "S -> é ~ -> b" ∧ Span.slice ⟨10, 12⟩ "S -> é ~ -> b" = "->" := by
  have cut : tokens "S -> é ~ -> b" = [⟨.nonterminal, "S", ⟨0, 1⟩⟩, ⟨.arrow, "->", ⟨2, 4⟩⟩,
      ⟨.fragment, "é", ⟨5, 7⟩⟩, ⟨.fragment, "~", ⟨8, 9⟩⟩, ⟨.arrow, "->", ⟨10, 12⟩⟩,
      ⟨.fragment, "b", ⟨13, 14⟩⟩, ⟨.stop, "", ⟨14, 14⟩⟩] := by
    decide +kernel
  have reads : Label.isEpsilon (⟨"é"⟩ : CaseBlind) = false := by
    decide +kernel
  have refused : (parse letters "S -> é ~ -> b" ()).result =
      .error (.syntactic (.chainFromOther .fragment "~" ⟨10, 12⟩)) := by
    rw [parse_eq_error_iff]
    simp [read, cut, Stage.run, Stage.turn, Turn.refuse, Draft.turn, Draft.opened, Draft.push,
      Draft.chain, Resolver.resolve, Resolver.empty, Resolver.learn, List.lookup_cons, letters,
      Compiler.ofFunction, Verdict.of_letter, Verdict.of_still, reads]
  have own (x : String) : ParseError.syntactic (.chainFromOther .fragment "~" ⟨10, 12⟩) ≠
      .fragment x := by
    intro h
    cases h
  obtain ⟨before, after, t, -, -, -, blames, within, slice⟩ := parse_error_blames refused own
  refine ⟨refused, ?_⟩
  generalize he : ParseError.syntactic _ = e at blames
  cases blames with
  | other _ arrow _ =>
      obtain ⟨-, -, place⟩ := SyntaxError.chainFromOther.inj (ParseError.syntactic.inj he)
      rw [← place] at within slice
      exact ⟨within, slice.trans arrow⟩
  | _ => cases he

end FragmentGrammar
