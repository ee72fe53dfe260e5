import FragmentGrammar.Proofs.Parser.Draft
import FragmentGrammar.Proofs.Parser.Progress

/-! # What a reader knows at every token

    Fix the stream that is read.  What a fragment leaves is then settled for the whole
    stream, before anything of it is read, and the stage that the reader has come to is
    settled by the tokens before it (`Stage.Reflects`).  One turn keeps this up
    (`Stage.Reflects.turn`), hence so does a row of turns (`Reads.reflects`).  Every reading
    stops at some token (`StopsAt`), and what is known where a source is accepted follows
    (`read_ok`). -/

namespace FragmentGrammar

variable {σ E A L : Type} [Automaton A L] [Label L]

/-! ## The first two turns -/

namespace Stage

variable {c : Compiler σ E A} {t : Token} {s : σ} {start : String}

theorem turn_opening_of_nonterminal (h : t.kind = .nonterminal) :
    (.opening : Stage A L).turn c t s = ⟨.on (.named t.source), s, []⟩ := by
  simp only [Stage.turn, h]

theorem turn_opening_of_ne (h : t.kind ≠ .nonterminal) :
    (.opening : Stage A L).turn c t s = .refuse (if t.kind = .unknown then .ofToken t
      else .syntactic (.expectedNonterminal t.kind t.source t.span)) s := by
  cases hk : t.kind <;> simp_all [Stage.turn]

theorem turn_named_of_arrow (h : t.kind = .arrow) :
    (.named start : Stage A L).turn c t s = ⟨.on (.rules (.opened start t)), s, []⟩ := by
  simp only [Stage.turn, h]

theorem turn_named_of_ne (h : t.kind ≠ .arrow) :
    (.named start : Stage A L).turn c t s = .refuse (if t.kind = .unknown then .ofToken t
      else .syntactic (.expectedArrow start t.kind t.source t.span)) s := by
  cases hk : t.kind <;> simp_all [Stage.turn]

end Stage

/-! ## One turn behind the first arrow -/

namespace Draft

variable {c : Compiler σ E A} {d : Draft A L} {t : Token} {s : σ}

theorem turn_of_nonterminal (h : t.kind = .nonterminal) :
    d.turn c t s = ⟨.on (.rules { d.push (some (.nonterminal (.named t.source))) with
      previous := t }), s, []⟩ := by
  rw [Draft.turn, h]

/-- A fragment that is resolved adds its symbol to the body, if it leaves one. -/
theorem turn_of_resolved (h : t.kind = .fragment) {symbol : Option (Symbol L)}
    (hr : (d.resolver.resolve c t.source s).answer = .ok symbol) :
    d.turn c t s = ⟨.on (.rules { d.push symbol with
      previous := t, resolver := (d.resolver.resolve c t.source s).resolver }),
      (d.resolver.resolve c t.source s).state, (d.resolver.resolve c t.source s).trace⟩ := by
  rw [Draft.turn, h]
  simp only [hr]

/-- A fragment that is not resolved ends the run with the error of the compiler. -/
theorem turn_of_unresolved (h : t.kind = .fragment) {e : E}
    (hr : (d.resolver.resolve c t.source s).answer = .error e) :
    d.turn c t s = ⟨.over (.error (.fragment e)),
      (d.resolver.resolve c t.source s).state, (d.resolver.resolve c t.source s).trace⟩ := by
  rw [Draft.turn, h]
  simp only [hr]

theorem turn_of_bar (h : t.kind = .bar) :
    d.turn c t s = ⟨.on (.rules { d.commit with previous := t }), s,
      [.production d.production]⟩ := by
  rw [Draft.turn, h]

/-- An arrow behind a name finishes the production in front of the name. -/
theorem turn_of_chain (h : t.kind = .arrow) {p : Production L} {d' : Draft A L}
    (hd : d.chain t = .ok (p, d')) :
    d.turn c t s = ⟨.on (.rules { d' with previous := t }), s, [.production p]⟩ := by
  rw [Draft.turn, h]
  simp only [hd]

theorem turn_of_no_chain (h : t.kind = .arrow) {e : SyntaxError} (hd : d.chain t = .error e) :
    d.turn c t s = .refuse (.syntactic e) s := by
  rw [Draft.turn, h]
  simp only [hd]

theorem turn_of_stop (h : t.kind = .stop) :
    d.turn c t s = ⟨.over (.ok d.finish), s, [.production d.production]⟩ := by
  rw [Draft.turn, h]

theorem turn_of_unknown (h : t.kind = .unknown) : d.turn c t s = .refuse (.ofToken t) s := by
  rw [Draft.turn, h]

/-- The compiler is called for fragments only. -/
theorem turn_state_of_ne (h : t.kind ≠ .fragment) :
    (d.turn c t s).state = s := by
  cases hk : t.kind with
  | nonterminal => rw [turn_of_nonterminal hk]
  | fragment => exact absurd hk h
  | arrow =>
      cases hd : d.chain t with
      | error e =>
          rw [turn_of_no_chain hk hd]
          rfl
      | ok r => rw [turn_of_chain hk hd]
  | bar => rw [turn_of_bar hk]
  | stop => rw [turn_of_stop hk]
  | unknown =>
      rw [turn_of_unknown hk]
      rfl

theorem turn_state_of_fragment (h : t.kind = .fragment) :
    (d.turn c t s).state = (d.resolver.resolve c t.source s).state := by
  cases hr : (d.resolver.resolve c t.source s).answer with
  | error e => rw [turn_of_unresolved h hr]
  | ok symbol => rw [turn_of_resolved h hr]

/-- Behind the first arrow a reading ends with the end of the text, or nothing is told and
    the token is unknown, an arrow that cannot take a name back, or a fragment without an
    automaton. -/
theorem turn_over {result : Except (ParseError E) (Written A L)}
    (h : (d.turn c t s).progress = .over result) :
    (t.kind = .stop ∧ result = .ok d.finish) ∨
      ∃ e, result = .error e ∧ (d.turn c t s).trace = [] ∧
        ((t.kind = .unknown ∧ e = .ofToken t) ∨ (∃ x, e = .syntactic x) ∨
          ∃ x, e = .fragment x) := by
  cases hk : t.kind with
  | nonterminal =>
      rw [turn_of_nonterminal hk] at h
      cases h
  | fragment =>
      cases hr : (d.resolver.resolve c t.source s).answer with
      | error x =>
          rw [turn_of_unresolved hk hr] at h ⊢
          cases h
          exact .inr ⟨_, rfl, Resolver.trace_of_error hr, .inr (.inr ⟨x, rfl⟩)⟩
      | ok symbol =>
          rw [turn_of_resolved hk hr] at h
          cases h
  | arrow =>
      cases hd : d.chain t with
      | error x =>
          rw [turn_of_no_chain hk hd] at h ⊢
          cases h
          exact .inr ⟨_, rfl, rfl, .inr (.inl ⟨x, rfl⟩)⟩
      | ok r =>
          rw [turn_of_chain hk hd] at h
          cases h
  | bar =>
      rw [turn_of_bar hk] at h
      cases h
  | unknown =>
      rw [turn_of_unknown hk] at h ⊢
      cases h
      exact .inr ⟨_, rfl, rfl, .inl ⟨rfl, rfl⟩⟩
  | stop =>
      rw [turn_of_stop hk] at h
      cases h
      exact .inl ⟨rfl, rfl⟩

end Draft

namespace Stage

variable {stage : Stage A L} {c : Compiler σ E A} {t : Token} {s : σ}

/-- A reading ends behind its first arrow with the end of the text, or nothing is told and
    the token is unknown, out of place, or a fragment without an automaton. -/
theorem turn_over {result : Except (ParseError E) (Written A L)}
    (h : (stage.turn c t s).progress = .over result) :
    (∃ d, stage = .rules d ∧ t.kind = .stop ∧ result = .ok d.finish) ∨
      ∃ e, result = .error e ∧ (stage.turn c t s).trace = [] ∧
        ((t.kind = .unknown ∧ e = .ofToken t) ∨ (∃ x, e = .syntactic x) ∨
          ∃ x, e = .fragment x) := by
  cases stage with
  | opening =>
      by_cases hk : t.kind = .nonterminal
      · rw [turn_opening_of_nonterminal hk] at h
        cases h
      · rw [turn_opening_of_ne hk] at h ⊢
        cases h
        refine .inr ⟨_, rfl, rfl, ?_⟩
        by_cases unknown : t.kind = .unknown
        · rw [if_pos unknown]
          exact .inl ⟨unknown, rfl⟩
        · rw [if_neg unknown]
          exact .inr (.inl ⟨_, rfl⟩)
  | named start =>
      by_cases hk : t.kind = .arrow
      · rw [turn_named_of_arrow hk] at h
        cases h
      · rw [turn_named_of_ne hk] at h ⊢
        cases h
        refine .inr ⟨_, rfl, rfl, ?_⟩
        by_cases unknown : t.kind = .unknown
        · rw [if_pos unknown]
          exact .inl ⟨unknown, rfl⟩
        · rw [if_neg unknown]
          exact .inr (.inl ⟨_, rfl⟩)
  | rules d =>
      rcases Draft.turn_over h with ⟨stop, accepted⟩ | refused
      · exact .inl ⟨d, rfl, stop, accepted⟩
      · exact .inr refused

/-- A source is accepted behind its first arrow only, and where the text ends. -/
theorem turn_accepts {w : Written A L} (h : (stage.turn c t s).progress = .over (.ok w)) :
    ∃ d, stage = .rules d ∧ t.kind = .stop ∧ w = d.finish := by
  rcases turn_over h with ⟨d, rules, stop, accepted⟩ | ⟨e, other, -⟩
  · exact ⟨d, rules, stop, Except.ok.inj accepted⟩
  · cases other

/-- Nothing is told about a token that is refused. -/
theorem trace_of_refusal {e : ParseError E}
    (h : (stage.turn c t s).progress = .over (.error e)) : (stage.turn c t s).trace = [] := by
  rcases turn_over h with ⟨d, -, -, other⟩ | ⟨e', -, quiet, -⟩
  · cases other
  · exact quiet

/-- Only an unknown token is reported as one, with its own text and place. -/
theorem turn_lexical {e : LexError}
    (h : (stage.turn c t s).progress = .over (.error (.lexical e))) :
    t.kind = .unknown ∧ e = ⟨t.source, t.span⟩ := by
  rcases turn_over h with ⟨d, -, -, other⟩ | ⟨e', reported, -, cause⟩
  · cases other
  · obtain rfl := Except.error.inj reported
    rcases cause with ⟨unknown, same⟩ | ⟨x, other⟩ | ⟨x, other⟩
    · exact ⟨unknown, ParseError.lexical.inj same⟩
    · cases other
    · cases other

end Stage

/-! ## The invariant -/

/-- The tokens `before` of the stream `ts` have led to this stage, with the compiler in
    this state. -/
inductive Stage.Reflects (c : Compiler σ E A) (s₀ : σ) (ts : List Token) :
    List Token → Stage A L → σ → Prop
  | opening : Reflects c s₀ ts [] .opening s₀
  | named {first : Token} (h : first.kind = .nonterminal) :
      Reflects c s₀ ts [first] (.named first.source) s₀
  | rules {before : List Token} {d : Draft A L} {s : σ}
      (follows : d.Follows (symbolOf (c.automata ts s₀)) before)
      (consulted : Consulted c s₀ before d.resolver s) : Reflects c s₀ ts before (.rules d) s

variable {c : Compiler σ E A} {s₀ s : σ} {ts before : List Token} {t : Token}

namespace Stage.Reflects

/-- A turn behind the first arrow keeps the draft and the resolver in step. -/
theorem draft_turn {d : Draft A L} {next : Stage A L}
    (follows : d.Follows (symbolOf (c.automata ts s₀)) before)
    (consulted : Consulted c s₀ before d.resolver s) (within : before ++ [t] <+: ts)
    (on : (d.turn c t s).progress = .on next) :
    Reflects c s₀ ts (before ++ [t]) next (d.turn c t s).state := by
  cases hk : t.kind with
  | nonterminal =>
      rw [Draft.turn_of_nonterminal hk] at on ⊢
      obtain rfl := Progress.on.inj on
      exact .rules (follows.push (by rw [hk]; rfl) (mention?_of_nonterminal hk) d.resolver)
        (consulted.of_ne (by simp [hk]))
  | fragment =>
      cases hr : (d.resolver.resolve c t.source s).answer with
      | error e =>
          rw [Draft.turn_of_unresolved hk hr] at on
          cases on
      | ok symbol =>
          obtain ⟨step, a, known, rfl⟩ := consulted.resolve_ok hk follows.two_le_length hr
          rw [Draft.turn_of_resolved hk hr] at on ⊢
          obtain rfl := Progress.on.inj on
          -- fragments that come later do not change what this one leaves
          rw [symbolOf_automata within known]
          exact .rules (follows.push (by rw [hk]; rfl) (mention?_of_fragment hk) _) step
  | arrow =>
      cases hd : d.chain t with
      | error e =>
          rw [Draft.turn_of_no_chain hk hd] at on
          cases on
      | ok r =>
          have last : d.previous.kind = .nonterminal := d.kind_of_chain hd
          obtain ⟨p, d', chained, same, step⟩ := follows.arrow last hk
          rw [Draft.turn_of_chain hk chained] at on ⊢
          obtain rfl := Progress.on.inj on
          exact .rules step (same ▸ consulted.of_ne (by simp [hk]))
  | bar =>
      rw [Draft.turn_of_bar hk] at on ⊢
      obtain rfl := Progress.on.inj on
      exact .rules (follows.bar hk) (consulted.of_ne (by simp [hk]))
  | unknown =>
      rw [Draft.turn_of_unknown hk] at on
      cases on
  | stop =>
      rw [Draft.turn_of_stop hk] at on
      cases on

/-- A turn that goes on leads to what the tokens up to its own one say. -/
theorem turn {stage next : Stage A L} (h : Reflects c s₀ ts before stage s)
    (within : before ++ [t] <+: ts) (on : (stage.turn c t s).progress = .on next) :
    Reflects c s₀ ts (before ++ [t]) next (stage.turn c t s).state := by
  cases h with
  | opening =>
      by_cases hk : t.kind = .nonterminal
      · rw [Stage.turn_opening_of_nonterminal hk] at on ⊢
        obtain rfl := Progress.on.inj on
        exact .named hk
      · rw [Stage.turn_opening_of_ne hk] at on
        cases on
  | @named first hf =>
      by_cases hk : t.kind = .arrow
      · rw [Stage.turn_named_of_arrow hk] at on ⊢
        obtain rfl := Progress.on.inj on
        exact .rules (Draft.follows_opened hf hk) (.start [first, t] rfl)
      · rw [Stage.turn_named_of_ne hk] at on
        cases on
  | rules follows consulted => exact draft_turn follows consulted within on

end Stage.Reflects

/-! ## A row of turns -/

/-- Reading from the start of a source leads to what the tokens that were read say. -/
theorem Reads.reflects {stage : Stage A L} {trace : List (Event L)}
    (h : Reads c .opening s₀ before stage s trace) (within : before <+: ts) :
    stage.Reflects c s₀ ts before s := by
  induction h with
  | start => exact .opening
  | snoc _ on ih => exact (ih ((List.prefix_append ..).trans within)).turn within on

/-! ## Whole readings -/

/-- The reading of a source gets to this stage over the tokens `before`, and the token `t`
    behind them ends it. -/
structure StopsAt (c : Compiler σ E A) (s₀ : σ) (source : String) (before : List Token) (t : Token)
    (after : List Token) (stage : Stage A L) (s : σ) (trace : List (Event L)) : Prop where
  split : tokens source = before ++ t :: after
  reads : Reads c .opening s₀ before stage s trace
  ended : (stage.turn c t s).progress = .over (read c source s₀).result
  state : (read c source s₀).state = (stage.turn c t s).state
  told : (read c source s₀).trace = trace ++ .token t :: (stage.turn c t s).trace

/-- Every reading stops somewhere. -/
theorem exists_stopsAt (c : Compiler σ E A) (source : String) (s₀ : σ) :
    ∃ before t after, ∃ (stage : Stage A L) (s : σ) (trace : List (Event L)),
      StopsAt c s₀ source before t after stage s trace := by
  obtain ⟨before, t, after, split, stage, s, trace, reads, ended, state, told⟩ :=
    read_endsAt c source s₀
  exact ⟨before, t, after, stage, s, trace, split, reads, ended, state, told⟩

namespace StopsAt

variable {after : List Token} {stage : Stage A L} {trace : List (Event L)}

/-- The token at which reading stops is one of the source. -/
theorem within (h : StopsAt c s₀ source before t after stage s trace) :
    before ++ [t] <+: tokens source :=
  ⟨after, by rw [h.split, List.append_assoc, List.singleton_append]⟩

theorem before_within (h : StopsAt c s₀ source before t after stage s trace) :
    before <+: tokens source :=
  (List.prefix_append ..).trans h.within

/-- The stage at which reading stops is known from the tokens before. -/
theorem reflects (h : StopsAt c s₀ source before t after stage s trace) :
    stage.Reflects c s₀ (tokens source) before s :=
  h.reads.reflects h.before_within

/-- A source is accepted at the end of its text. -/
theorem exists_draft (h : StopsAt c s₀ source before t after stage s trace) {w : Written A L}
    (accepted : (read c source s₀).result = .ok w) :
    ∃ d, stage = .rules d ∧ t.kind = .stop ∧ w = d.finish ∧ after = [] := by
  have ended := h.ended
  rw [accepted] at ended
  obtain ⟨d, rfl, stop, rfl⟩ := Stage.turn_accepts ended
  have none := tokens_after_eq_nil h.split (by rw [stop]; rfl)
  exact ⟨d, rfl, stop, rfl, none⟩

end StopsAt

/-- What is known where a source is accepted: the draft has followed all of the source up
    to the token that ends it, and every fragment of the source has its automaton. -/
theorem read_ok {source : String} {w : Written A L}
    (h : (read c source s₀).result = .ok w) :
    ∃ (before : List Token) (t : Token) (d : Draft A L) (s : σ),
      tokens source = before ++ [t] ∧ t.kind = .stop ∧ w = d.finish ∧
      d.Follows (symbolOf (c.automata (tokens source) s₀)) before ∧
      Consulted c s₀ (tokens source) d.resolver s := by
  obtain ⟨before, t, after, stage, s, trace, stops⟩ := exists_stopsAt c source s₀
  obtain ⟨d, rfl, stop, rfl, rfl⟩ := stops.exists_draft h
  cases stops.reflects with
  | rules follows consulted =>
      refine ⟨before, t, d, s, stops.split, stop, rfl, follows, ?_⟩
      rw [stops.split]
      exact consulted.of_ne (by simp [stop])

end FragmentGrammar
