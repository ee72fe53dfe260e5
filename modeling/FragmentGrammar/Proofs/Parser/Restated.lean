import FragmentGrammar.Proofs.Lexer.Restated
import FragmentGrammar.Proofs.Parser.Respaced

/-! # A bar restates the head

    A bar begins another body for the head in force, and so does the name of that head with
    an arrow behind it: the arrow takes the name back and finishes what stands before it.
    The two leave drafts that differ in the token read last only, with nothing in the body,
    and then no turn tells them apart (`Draft.turn_previous`).  So bars may be replaced in a
    source, one or many, and nothing changes but the places of errors (`parse_restate`). -/

namespace FragmentGrammar

variable {σ E A L : Type}

/-! ## The head in force -/

/-- The text of the name before the last arrow. -/
def headOf? (before : List Token) : Option String :=
  match before.reverse.dropWhile (·.kind ≠ .arrow) with
  | _ :: t :: _ => if t.kind = .nonterminal then some t.source else none
  | _ => none

section Head

variable {before : List Token} {t p : Token} {name : String}

theorem headOf?_concat_of_ne (h : t.kind ≠ .arrow) : headOf? (before ++ [t]) = headOf? before := by
  simp [headOf?, h]

theorem headOf?_concat_of_arrow (h : t.kind = .arrow) (last : before.getLast? = some p)
    (hp : p.kind = .nonterminal) : headOf? (before ++ [t]) = some p.source := by
  obtain ⟨pre, rfl⟩ := List.getLast?_eq_some_iff.mp last
  simp [headOf?, h, hp]

/-- The head is the name before the last arrow. -/
theorem headOf?_eq_some_iff : headOf? before = some name ↔
    ∃ pre t arrow rest, before = pre ++ t :: arrow :: rest ∧ t.kind = .nonterminal ∧
      t.source = name ∧ arrow.kind = .arrow ∧ ∀ u ∈ rest, u.kind ≠ .arrow := by
  constructor
  · intro h
    have whole := List.takeWhile_append_dropWhile (p := (·.kind ≠ .arrow)) (l := before.reverse)
    have stops := List.head?_dropWhile_not (·.kind ≠ .arrow) before.reverse
    have others := List.all_eq_true.mp
      (List.all_takeWhile (p := (·.kind ≠ .arrow)) (l := before.reverse))
    generalize before.reverse.takeWhile (·.kind ≠ .arrow) = rest at whole others
    rw [headOf?] at h
    split at h
    next arrow t pre left =>
      split at h
      next isName =>
        rw [left] at whole stops
        refine ⟨pre.reverse, t, arrow, rest.reverse, ?_, isName, Option.some.inj h,
          by simpa using stops, ?_⟩
        · rw [← List.reverse_inj, ← whole]
          simp
        · intro u hu
          exact of_decide_eq_true (others u (List.mem_reverse.mp hu))
      next => cases h
    next => cases h
  · rintro ⟨pre, t, arrow, rest, rfl, isName, rfl, isArrow, others⟩
    have skipped : ∀ u ∈ rest.reverse, decide (u.kind ≠ .arrow) = true := by
      intro u hu
      exact decide_eq_true (others u (List.mem_reverse.mp hu))
    have reversed : (pre ++ t :: arrow :: rest).reverse =
        rest.reverse ++ (arrow :: t :: pre.reverse) := by simp
    rw [headOf?, reversed, List.dropWhile_append_of_pos skipped]
    simp [isArrow, isName]

end Head

variable [Automaton A L] [Label L] {c : Compiler σ E A} {s s₀ : σ} {before : List Token}

/-- The head of a draft is the name before the last arrow. -/
def Draft.Heads (d : Draft A L) (before : List Token) : Prop :=
  ∃ name, d.head = .named name ∧ headOf? before = some name

/-- A turn behind the first arrow keeps the head, unless it is that of an arrow. -/
theorem Draft.Heads.turn {d d' : Draft A L} {t : Token} {meaning : String → Option (Symbol L)}
    (h : d.Heads before) (follows : d.Follows meaning before)
    (on : (d.turn c t s).progress = .on (.rules d')) : d'.Heads (before ++ [t]) := by
  obtain ⟨name, head, last⟩ := h
  have kept (hk : t.kind ≠ .arrow) : headOf? (before ++ [t]) = some name := by
    rw [headOf?_concat_of_ne hk, last]
  cases hk : t.kind with
  | nonterminal =>
      rw [Draft.turn_of_nonterminal hk] at on
      obtain rfl := Stage.rules.inj (Progress.on.inj on)
      exact ⟨name, head, kept (by simp [hk])⟩
  | fragment =>
      cases hr : (d.resolver.resolve c t.source s).answer with
      | error e =>
          rw [Draft.turn_of_unresolved hk hr] at on
          cases on
      | ok symbol =>
          rw [Draft.turn_of_resolved hk hr] at on
          obtain rfl := Stage.rules.inj (Progress.on.inj on)
          exact ⟨name, head, kept (by simp [hk])⟩
  | arrow =>
      cases hd : d.chain t with
      | error e =>
          rw [Draft.turn_of_no_chain hk hd] at on
          cases on
      | ok r =>
          have isName := d.kind_of_chain hd
          obtain ⟨words, -, ends⟩ := follows.body_eq_concat isName
          rw [Draft.turn_of_chain hk (Draft.chain_of_concat ends isName)] at on
          obtain rfl := Stage.rules.inj (Progress.on.inj on)
          exact ⟨_, rfl, headOf?_concat_of_arrow hk follows.previous isName⟩
  | bar =>
      rw [Draft.turn_of_bar hk] at on
      obtain rfl := Stage.rules.inj (Progress.on.inj on)
      exact ⟨name, head, kept (by simp [hk])⟩
  | unknown =>
      rw [Draft.turn_of_unknown hk] at on
      cases on
  | stop =>
      rw [Draft.turn_of_stop hk] at on
      cases on

/-- Behind the first arrow, the head in force is the name before the last arrow. -/
theorem Reads.heads {d : Draft A L} {trace : List (Event L)}
    (h : Reads c .opening s₀ before (.rules d) s trace) : d.Heads before := by
  generalize hl : Stage.rules d = last at h
  induction h generalizing d with
  | start => cases hl
  | @snoc before stage next s trace t reads on ih =>
      subst hl
      cases reads.reflects (List.prefix_rfl) with
      | opening =>
          by_cases hk : t.kind = .nonterminal
          · rw [Stage.turn_opening_of_nonterminal hk] at on
            cases on
          · rw [Stage.turn_opening_of_ne hk] at on
            cases on
      | @named first hf =>
          by_cases hk : t.kind = .arrow
          · rw [Stage.turn_named_of_arrow hk] at on
            obtain rfl := Stage.rules.inj (Progress.on.inj on)
            exact ⟨first.source, rfl, headOf?_concat_of_arrow hk rfl hf⟩
          · rw [Stage.turn_named_of_ne hk] at on
            cases on
      | rules follows _ => exact (ih rfl).turn follows on

/-- Behind two tokens a reader is behind the first arrow. -/
theorem Reads.exists_rules {stage : Stage A L} {trace : List (Event L)}
    (h : Reads c .opening s₀ before stage s trace) (long : 2 ≤ before.length) :
    ∃ d, stage = .rules d ∧ d.Heads before := by
  cases h.reflects (List.prefix_rfl) with
  | opening => cases long
  | named _ => cases Nat.le_of_succ_le_succ long
  | rules _ _ => exact ⟨_, rfl, h.heads⟩

/-! ## Turns that do not differ -/

/-- The token read last only matters to an arrow, and then only if the body is not empty. -/
theorem Draft.turn_previous {d : Draft A L} {p : Token} (h : d.body = [] ∨ p = d.previous)
    (t : Token) : ({ d with previous := p } : Draft A L).turn c t s = d.turn c t s := by
  rcases h with empty | rfl
  · rw [Draft.turn, Draft.turn]
    cases t.kind with
    | arrow =>
        have none := d.chain_of_nil (t := t) empty
        have none' := ({ d with previous := p } : Draft A L).chain_of_nil (t := t) empty
        rw [none, none']
    | _ => rfl
  · rfl

/-- So what is read behind a break does not depend on how the break was written. -/
theorem Stage.run_previous {d : Draft A L} {p : Token} (h : d.body = [] ∨ p = d.previous)
    (size : Nat) (ts : List Token) (s : σ) :
    (Stage.rules { d with previous := p }).run c size ts s = (Stage.rules d).run c size ts s := by
  cases ts with
  | nil => rfl
  | cons t ts =>
      have same : (Stage.rules { d with previous := p }).turn c t s = (Stage.rules d).turn c t s :=
        Draft.turn_previous h t
      rw [Stage.run, Stage.run, same]

/-- A turn that goes on hands over to the stage that it leads to. -/
theorem Stage.run_of_on {stage next : Stage A L} {t : Token} {s s' : σ} {trace : List (Event L)}
    (on : stage.turn c t s = ⟨.on next, s', trace⟩) (size : Nat) (ts : List Token) :
    (stage.run c size (t :: ts) s).result = (next.run c size ts s').result ∧
      (stage.run c size (t :: ts) s).state = (next.run c size ts s').state := by
  rw [Stage.run, on]
  exact ⟨rfl, rfl⟩

/-- A name and an arrow do what a bar does, where the name is that of the head in force. -/
theorem Stage.run_restated {d : Draft A L} {bar name arrow : Token} (hbar : bar.kind = .bar)
    (hname : name.kind = .nonterminal) (harrow : arrow.kind = .arrow)
    (head : d.head = .named name.source) (size : Nat) (ts : List Token) (s : σ) :
    ((Stage.rules d).run c size (name :: arrow :: ts) s).result =
        ((Stage.rules d).run c size (bar :: ts) s).result ∧
      ((Stage.rules d).run c size (name :: arrow :: ts) s).state =
        ((Stage.rules d).run c size (bar :: ts) s).state := by
  have pushed : (Stage.rules d).turn c name s =
      ⟨.on (.rules { d.push (some (.nonterminal d.head)) with previous := name }), s, []⟩ := by
    rw [head]
    exact Draft.turn_of_nonterminal hname
  have taken : ({ d.push (some (.nonterminal d.head)) with previous := name } : Draft A L).chain
      arrow = .ok (d.production, { d.commit with previous := name }) :=
    Draft.chain_of_concat rfl hname
  have chained : (Stage.rules
      { d.push (some (.nonterminal d.head)) with previous := name }).turn c arrow s =
      ⟨.on (.rules { d.commit with previous := arrow }), s, [.production d.production]⟩ := by
    have turned := Draft.turn_of_chain (c := c) (s := s) harrow taken
    exact turned
  have finished : (Stage.rules d).turn c bar s =
      ⟨.on (.rules { d.commit with previous := bar }), s, [.production d.production]⟩ :=
    Draft.turn_of_bar hbar
  have same := Stage.run_previous (c := c) (d := { d.commit with previous := bar }) (p := arrow)
    (.inl rfl) size ts s
  obtain ⟨result, state⟩ := Stage.run_of_on pushed size (arrow :: ts)
  obtain ⟨result', state'⟩ := Stage.run_of_on chained size ts
  obtain ⟨result'', state''⟩ := Stage.run_of_on finished size ts
  rw [result, result'', state, state'', ← same]
  exact ⟨result', state'⟩

/-! ## Whole streams -/

/-- A lexeme as a token that stands nowhere in particular. -/
def Token.ofLexeme (x : TokenKind × String) : Token :=
  ⟨x.1, x.2, ⟨0, 0⟩⟩

theorem headOf?_map_ofLexeme (before : List Token) :
    headOf? ((before.map Token.lexeme).map Token.ofLexeme) = headOf? before := by
  rw [List.map_map, headOf?, headOf?, ← List.map_reverse, List.dropWhile_map]
  have same : ((fun t : Token => decide (t.kind ≠ .arrow)) ∘ Token.ofLexeme ∘ Token.lexeme) =
      fun t => decide (t.kind ≠ .arrow) := rfl
  rw [same]
  cases before.reverse.dropWhile (·.kind ≠ .arrow) with
  | nil => rfl
  | cons t ts => cases ts <;> rfl

/-- Where names are chosen for bars only, and each is that of the head in force, reading on
    comes to the same with them and with the bars. -/
theorem Reads.run_restated {pick : Nat → Option String} {ts : List Token} {stage : Stage A L}
    {trace : List (Event L)}
    (reads : Reads c .opening s₀ ((before.map Token.lexeme).map Token.ofLexeme) stage s trace)
    (heads : ∀ b t a name, ts = b ++ t :: a → pick t.span.start = some name →
      t.kind = .bar ∧ headOf? (before ++ b) = some name) :
    (stage.run c 0 ((ts.flatMap (Token.restated pick)).map Token.ofLexeme) s).result =
        (stage.run c 0 ((ts.map Token.lexeme).map Token.ofLexeme) s).result ∧
      (stage.run c 0 ((ts.flatMap (Token.restated pick)).map Token.ofLexeme) s).state =
        (stage.run c 0 ((ts.map Token.lexeme).map Token.ofLexeme) s).state := by
  induction ts generalizing before stage s trace with
  | nil => exact ⟨rfl, rfl⟩
  | cons t ts ih =>
      have later : ∀ b u a name, ts = b ++ u :: a → pick u.span.start = some name →
          u.kind = .bar ∧ headOf? (before ++ [t] ++ b) = some name := by
        rintro b u a name rfl chosen
        rw [List.append_assoc]
        exact heads (t :: b) u a name rfl chosen
      have grown : ((before ++ [t]).map Token.lexeme).map Token.ofLexeme =
          (before.map Token.lexeme).map Token.ofLexeme ++ [Token.ofLexeme t.lexeme] := by
        rw [List.map_append, List.map_append]
        rfl
      -- what is left is read alike from wherever the token itself leads
      have goesOn {next : Stage A L}
          (on : (stage.turn c (.ofLexeme t.lexeme) s).progress = .on next) :=
        ih (grown ▸ reads.snoc on) later
      rw [List.flatMap_cons, List.map_append, List.map_cons, List.map_cons]
      cases chosen : pick t.span.start with
      | none =>
          rw [Token.restated_of_none chosen]
          show (stage.run c 0 (Token.ofLexeme t.lexeme :: _) s).result = _ ∧
            (stage.run c 0 (Token.ofLexeme t.lexeme :: _) s).state = _
          rw [Stage.run, Stage.run]
          cases on : (stage.turn c (.ofLexeme t.lexeme) s).progress with
          | on next => exact goesOn on
          | _ => exact ⟨rfl, rfl⟩
      | some name =>
          rw [Token.restated_of_some chosen]
          obtain ⟨bar, head⟩ := heads [] t ts name rfl chosen
          rw [List.append_nil, ← headOf?_map_ofLexeme] at head
          have long : 2 ≤ ((before.map Token.lexeme).map Token.ofLexeme).length := by
            obtain ⟨pre, u, arrow, rest, split, -⟩ := headOf?_eq_some_iff.mp head
            rw [split]
            simp
            omega
          obtain ⟨d, rfl, name', head', last⟩ := reads.exists_rules long
          obtain rfl := Option.some.inj (last.symm.trans head)
          have on : (Stage.rules d).turn c (.ofLexeme t.lexeme) s =
              ⟨.on (.rules { d.commit with previous := .ofLexeme t.lexeme }), s,
                [.production d.production]⟩ := Draft.turn_of_bar bar
          have isBar : (Token.ofLexeme t.lexeme).kind = .bar := bar
          have isName : (Token.ofLexeme (.nonterminal, name')).kind = .nonterminal := rfl
          have isArrow : (Token.ofLexeme (.arrow, "->")).kind = .arrow := rfl
          obtain ⟨result, state⟩ := Stage.run_restated (c := c) isBar isName isArrow head' 0
            ((ts.flatMap (Token.restated pick)).map Token.ofLexeme) s
          have rest := goesOn (congrArg Turn.progress on)
          obtain ⟨result₁, state₁⟩ :=
            Stage.run_of_on on 0 ((ts.flatMap (Token.restated pick)).map Token.ofLexeme)
          obtain ⟨result₂, state₂⟩ := Stage.run_of_on on 0 ((ts.map Token.lexeme).map Token.ofLexeme)
          rw [on] at rest
          rw [result₂, state₂, ← rest.1, ← rest.2, ← result₁, ← state₁]
          exact ⟨result, state⟩

/-! ## Sources -/

/-- At the byte `n` of the source a bar starts, which its reading comes to under the head
    `name`. -/
def BarUnder (c : Compiler σ E A) (source : String) (s : σ) (n : Nat) (name : String) : Prop :=
  ∃ (before after : List Token) (t : Token) (d : Draft A L) (s' : σ) (trace : List (Event L)),
    tokens source = before ++ t :: after ∧ t.kind = .bar ∧ t.span.start = n ∧
      Reads c .opening s before (.rules d) s' trace ∧ d.head = .named name

/-- At the byte `n` of the source a bar starts, and `name` stands before the last arrow. -/
def BarBehind (source : String) (n : Nat) (name : String) : Prop :=
  ∃ (before after : List Token) (t : Token), tokens source = before ++ t :: after ∧
    t.kind = .bar ∧ t.span.start = n ∧ headOf? before = some name

section Source

variable {source : String} {pick : Nat → Option String} {n : Nat} {name : String}

theorem BarUnder.behind (h : BarUnder c source s n name) : BarBehind source n name := by
  obtain ⟨before, after, t, d, s', trace, split, bar, start, reads, head⟩ := h
  obtain ⟨name', head', last⟩ := reads.heads
  obtain rfl := Nonterminal.named.inj (head.symm.trans head')
  exact ⟨before, after, t, split, bar, start, last⟩

/-- Heads are names, so bars may be replaced by them. -/
theorem picksBars_of_behind (h : ∀ n name, pick n = some name → BarBehind source n name) :
    PicksBars pick 0 (tokens source) := by
  intro n name _ chosen
  obtain ⟨before, after, t, split, bar, start, last⟩ := h n name chosen
  refine ⟨?_, t, by simp [split], bar, start⟩
  obtain ⟨pre, u, arrow, rest, rfl, isName, rfl, -⟩ := headOf?_eq_some_iff.mp last
  have spelled := (tiles_iff.mpr (rfl : tokens source = _)).wellSpelled u (by simp [split])
  exact spelled.1 isName

/-- Bars that are replaced by the name before the last arrow are read alike. -/
theorem read_restateSource (h : ∀ n name, pick n = some name → BarBehind source n name)
    (c : Compiler σ E A) (s : σ) :
    (read c (restateSource pick source) s).result.mapError ParseError.unplaced =
        (read c source s).result.mapError ParseError.unplaced ∧
      (read c (restateSource pick source) s).state = (read c source s).state := by
  have heads : ∀ b t a name, tokens source = b ++ t :: a → pick t.span.start = some name →
      t.kind = .bar ∧ headOf? ([] ++ b) = some name := by
    intro b t a name split chosen
    obtain ⟨before, after, t', split', bar, start, last⟩ := h _ name chosen
    obtain ⟨rfl, rfl⟩ := tokens_split_unique split' split start
    exact ⟨bar, last⟩
  have opening : Reads c (.opening : Stage A L) s
      ((([] : List Token).map Token.lexeme).map Token.ofLexeme) .opening s [] := .start
  obtain ⟨result, state⟩ := opening.run_restated heads
  rw [← lexemes_restateSource (picksBars_of_behind h)] at result state
  obtain ⟨old, oldState⟩ := read_unplaced c source s
  obtain ⟨new, newState⟩ := read_unplaced c (restateSource pick source) s
  rw [map_relocate_const] at old oldState new newState
  exact ⟨new.symm.trans (result.trans old), newState.symm.trans (state.trans oldState)⟩

end Source

/-- Every bar behind the first two tokens that a parse comes to stands under a head, which
    is the name before the last arrow.  When bars that it comes to are replaced by their
    heads with arrows, be it one or many, the parse comes to the very same grammar, or to
    the same error at another place, with the same calls to the compiler. -/
theorem parse_restate (c : Compiler σ E A) (source : String) (s : σ) :
    (∀ (before after : List Token) (t : Token) (stage : Stage A L) (s' : σ)
      (trace : List (Event L)), tokens source = before ++ t :: after → t.kind = .bar →
      2 ≤ before.length → Reads c .opening s before stage s' trace →
      ∃ name, headOf? before = some name ∧ BarUnder c source s t.span.start name) ∧
    ∀ pick : Nat → Option String, (∀ n name, pick n = some name → BarUnder c source s n name) →
      (parse c (restateSource pick source) s).result.mapError ParseError.unplaced =
          (parse c source s).result.mapError ParseError.unplaced ∧
        (parse c (restateSource pick source) s).state = (parse c source s).state ∧
        (parse c.recorded (restateSource pick source) (s, [])).state =
          (parse c.recorded source (s, [])).state := by
  constructor
  · intro before after t stage s' trace split bar long reads
    obtain ⟨d, rfl, name, head, last⟩ := reads.exists_rules long
    exact ⟨name, last, before, after, t, d, s', trace, split, bar, rfl, reads, head⟩
  · intro pick under
    have behind (n : Nat) (name : String) (chosen : pick n = some name) :
        BarBehind source n name := (under n name chosen).behind
    obtain ⟨result, state⟩ := parse_of_read (read_restateSource behind c s)
    exact ⟨result, state, (parse_of_read (read_restateSource behind c.recorded (s, []))).2⟩

/-- The bars of `S -> | T -> | ->`, each under its own head. -/
def bothBars (n : Nat) : Option String :=
  if n = 5 then some "S" else if n = 12 then some "T" else none

/-- Both bars may be replaced, and the arrow at the end is out of place as before. -/
theorem parse_restate_bothBars :
    restateSource bothBars "S -> | T -> | ->" = "S ->  S ->  T ->  T ->  ->" ∧
    (parse letters "S ->  S ->  T ->  T ->  ->" ()).result.mapError ParseError.unplaced =
      (parse letters "S -> | T -> | ->" ()).result.mapError ParseError.unplaced := by
  have restated : restateSource bothBars "S -> | T -> | ->" = "S ->  S ->  T ->  T ->  ->" := by
    decide +kernel
  have stream : tokens "S -> | T -> | ->" = [.at .nonterminal ['S'] 0, .at .arrow ['-', '>'] 2,
      .at .bar ['|'] 5, .at .nonterminal ['T'] 7, .at .arrow ['-', '>'] 9, .at .bar ['|'] 12,
      .at .arrow ['-', '>'] 14, .at .stop [] 16] := by
    decide +kernel
  have opened : Reads letters .opening ()
      ([] ++ [.at .nonterminal ['S'] 0] ++ [.at .arrow ['-', '>'] 2]) _ () _ :=
    .snoc (.snoc .start rfl) rfl
  have chained : Reads letters .opening () ([] ++ [.at .nonterminal ['S'] 0] ++
      [.at .arrow ['-', '>'] 2] ++ [.at .bar ['|'] 5] ++ [.at .nonterminal ['T'] 7] ++
      [.at .arrow ['-', '>'] 9]) _ () _ :=
    .snoc (.snoc (.snoc opened rfl) rfl) rfl
  have under (n : Nat) (name : String) (chosen : bothBars n = some name) :
      BarUnder letters "S -> | T -> | ->" () n name := by
    rw [bothBars] at chosen
    split at chosen
    next here =>
      exact ⟨_, _, _, _, _, _, stream, rfl, here.symm, opened, congrArg _ (Option.some.inj chosen)⟩
    next =>
      split at chosen
      next here =>
        exact ⟨_, _, _, _, _, _, stream, rfl, here.symm, chained,
          congrArg _ (Option.some.inj chosen)⟩
      next => cases chosen
  obtain ⟨-, replaced⟩ := parse_restate letters "S -> | T -> | ->" ()
  obtain ⟨same, -⟩ := replaced bothBars under
  rw [restated] at same
  exact ⟨restated, same⟩

end FragmentGrammar
