import FragmentGrammar.Proofs.Parser.Trace
import FragmentGrammar.Proofs.Text.Decimal
import Mathlib.Algebra.Ring.Nat

/-! # The log of a parse

    The messages that a parse leaves can be told from its source and its result, without
    the events that they are about: one for each token that is read, directly behind it
    what the token leads to (`messageBehind?`), and for an accepted source the automata and
    the grammar in the end (`parse_tells`).  A coarse log has the first of them and those in
    the end only.  The message of a token gives its kind, its text and its place away
    (`Event.message_token_inj`), so the log shows how far a source was read. -/

namespace FragmentGrammar

variable {σ E A L : Type}

/-! ## Messages of tokens -/

namespace TokenKind

/-- No kind has a blank in its name. -/
theorem ne_space_of_mem_text (k : TokenKind) : ∀ c ∈ k.text.toList, (c != ' ') = true := by
  cases k <;> simp [text]

/-- Kinds are told apart by their names. -/
theorem text_inj {k k' : TokenKind} (h : k.text = k'.text) : k = k' := by
  cases k <;> cases k' <;> simp_all [text]

end TokenKind

namespace Token

/-- The message that a token is read: its kind, its text, and the bytes where it stands. -/
def message (t : Token) : String :=
  "token " ++ t.kind.text ++ " \x60" ++ t.source ++ "\x60 at (" ++ t.span.start.repr ++ ", " ++
    t.span.stop.repr ++ ")"

/-- The message of a token up to its place. -/
def announced (t : Token) : List Char :=
  "token ".toList ++ (t.kind.text.toList ++ ' ' :: '\x60' :: (t.source.toList ++ "\x60 at ".toList))

/-- The message of a token with the two numbers of its place at the end. -/
theorem toList_message (t : Token) : t.message.toList =
    ((t.announced ++ '(' :: t.span.start.repr.toList) ++ [',']) ++ ' ' :: t.span.stop.repr.toList ++
      [')'] := by
  -- the equations of these two would be costly to generate
  delta message announced
  simp

/-- The kind ends at the first blank, and the text is all that follows between the marks. -/
theorem announced_inj {t u : Token} (h : t.announced = u.announced) :
    t.kind = u.kind ∧ t.source = u.source := by
  obtain ⟨kind, -, rest⟩ := append_cons_inj_of_run (p := (· != ' '))
    t.kind.ne_space_of_mem_text u.kind.ne_space_of_mem_text (by decide) (by decide)
    (List.append_cancel_left h)
  have text := List.append_cancel_right (List.cons.inj rest).2
  exact ⟨TokenKind.text_inj (String.toList_inj.mp kind), String.toList_inj.mp text⟩

/-- A token is known from its message, where the numbers of its place come last. -/
theorem message_inj {t u : Token} (h : t.message = u.message) : t = u := by
  rw [← String.toList_inj, toList_message, toList_message] at h
  obtain ⟨stop, -, rest⟩ := append_repr_inj (by decide) (by decide) (List.append_cancel_right h)
  obtain ⟨start, -, front⟩ :=
    append_repr_inj (by decide) (by decide) (List.append_cancel_right rest)
  obtain ⟨kind, text⟩ := announced_inj front
  obtain ⟨k, source, p, q⟩ := t
  obtain ⟨k', source', p', q'⟩ := u
  simp_all

end Token

/-- A token that is read leaves its message. -/
theorem Event.message_token (t : Token) : (Event.token t : Event L).message = t.message := by
  have opening : "\x60 at (" = "\x60 at " ++ "(" := rfl
  show "token " ++ t.kind.text ++ " \x60" ++ t.source ++ "\x60 at " ++ t.span.text = _
  delta Token.message
  simp only [Span.text, opening, String.append_assoc]

example : (Event.token ⟨.arrow, "->", ⟨2, 4⟩⟩ : Event L).message =
    "token ARROW \x60->\x60 at (2, 4)" := by
  rfl

/-- Which tokens were read is known from what is said about them. -/
theorem Event.message_token_inj {t u : Token} :
    (Event.token t : Event L).message = (Event.token u : Event L).message ↔ t = u := by
  rw [message_token, message_token]
  exact ⟨Token.message_inj, congrArg Token.message⟩

/-! ## Messages behind tokens -/

/-- The message about a fragment whose automaton has been judged, when `id` is the next
    number to be given. -/
def Verdict.message (text : String) (id : Nat) : Verdict L → String
  | vanishes => "fragment \x60" ++ text ++ "\x60 is epsilon"
  | terminal _ => "fragment \x60" ++ text ++ "\x60 is a terminal"
  | embeds => "fragment \x60" ++ text ++ "\x60 is embedded as <r" ++ id.repr ++ ">"

/-- The event of a verdict leaves the message of the verdict. -/
theorem Verdict.message_event (text : String) (id : Nat) (v : Verdict L) :
    (v.event text id).message = v.message text id := by
  cases v with
  | vanishes => rfl
  | terminal l => rfl
  | embeds =>
      have opening : "\x60 is embedded as <r" = "\x60 is embedded as " ++ "<r" := rfl
      show "fragment \x60" ++ text ++ "\x60 is embedded as " ++ (Nonterminal.entry id).text = _
      simp only [message, Nonterminal.text, opening, String.append_assoc]

variable [Automaton A L] [Label L]

/-- The message directly behind that of a token, which stands behind the tokens `before`.  A
    fragment leaves one where its text first occurs, if it has an automaton; a bar, an arrow
    behind a name and the end of the text leave one with the production that they finish. -/
def messageBehind? (c : Compiler σ E A) (s : σ) (before : List Token) (t : Token) :
    Option String :=
  if t.kind = .fragment then
    if t.source ∈ fragmentsOf before then none
    else ((c.automata (before ++ [t]) s).lookup t.source).map fun a =>
      (Verdict.of a).message t.source (embeddedOf (c.automata before s)).length
  else (finished? before t).map fun r =>
    "production " ++ (r.production (symbolOf (c.automata before s))).text

/-- The messages of tokens that stand behind the tokens `before`, each with the one behind
    it. -/
def messages (c : Compiler σ E A) (s : σ) (before : List Token) : List Token → List String
  | [] => []
  | t :: ts =>
    t.message :: (messageBehind? c s before t).toList ++ messages c s (before ++ [t]) ts

variable {c : Compiler σ E A} {s : σ} {before : List Token} {t : Token}

/-- What a token leads to leaves the message that is behind that of the token. -/
theorem map_message_told? (c : Compiler σ E A) (s : σ) (before : List Token) (t : Token) :
    (told? c s before t : Option (Event L)).map Event.message = messageBehind? c s before t := by
  rw [told?, messageBehind?]
  by_cases fragment : t.kind = .fragment
  · rw [if_pos fragment, if_pos fragment, learnt?]
    by_cases old : t.source ∈ fragmentsOf before
    · rw [if_pos old, if_pos old]
      rfl
    · rw [if_neg old, if_neg old, Option.map_map]
      congr 1
      funext a
      exact Verdict.message_event _ _ _
  · rw [if_neg fragment, if_neg fragment, Option.map_map]
    rfl

/-- The events that tokens lead to leave the messages of these tokens. -/
theorem map_message_narration (c : Compiler σ E A) (s : σ) (before ts : List Token) :
    (narration c s before ts : List (Event L)).map Event.message = messages c s before ts := by
  induction ts generalizing before with
  | nil => rfl
  | cons t ts ih =>
      have behind := congrArg Option.toList (map_message_told? (L := L) c s before t)
      rw [Option.toList_map] at behind
      show (Event.token t : Event L).message ::
        ((told? c s before t).toList ++ narration c s (before ++ [t]) ts).map Event.message = _
      rw [Event.message_token, List.map_append, behind, ih]
      rfl

/-! ## Messages of a completed grammar -/

/-- The messages when a grammar is completed: one for each automaton, with the size of its
    block, and one for the whole. -/
def Written.messages (w : Written A L) : List String :=
  w.recorded.map (fun r =>
    "embedded <r" ++ r.1.repr ++ "> as " ++ (embed r.1 r.2).length.repr ++ " productions over " ++
      (Embedding.of r.1 r.2).table.names.length.repr ++ " nonterminals and " ++
      (Embedding.of r.1 r.2).table.terminals.length.repr ++ " terminals") ++
  ["parsed grammar starting at " ++ w.start.text ++ ": " ++ w.productions.length.repr ++
    " written and " ++ w.embedded.length.repr ++ " embedded productions"]

/-- Completing a grammar leaves the messages of its automata and of the whole. -/
theorem Written.map_message_trace (w : Written A L) :
    w.trace.map Event.message = w.messages := by
  rw [trace, blocks, List.map_map, List.map_append, List.map_map, messages]
  refine congrArg (· ++ _) (List.map_congr_left ?_)
  intro r _
  have opening : "embedded <r" = "embedded " ++ "<r" := rfl
  have closing : "> as " = ">" ++ " as " := rfl
  show "embedded " ++ (Nonterminal.entry r.1).text ++ " as " ++ _ ++ " productions over " ++ _ ++
    " nonterminals and " ++ _ ++ " terminals" = _
  simp only [Nonterminal.text, embed, opening, closing, String.append_assoc]

/-! ## Levels -/

/-- What a token leads to is told to a fine log only. -/
theorem level_of_told? {e : Event L} (h : told? c s before t = some e) : e.level = "TRACE" := by
  rw [told?] at h
  split at h
  · rw [learnt?] at h
    split at h
    · cases h
    · obtain ⟨a, -, rfl⟩ := Option.map_eq_some_iff.mp h
      cases (Verdict.of a : Verdict L) <;> rfl
  · obtain ⟨r, -, rfl⟩ := Option.map_eq_some_iff.mp h
    rfl

/-- So is everything that is told while a source is read. -/
theorem level_of_mem_narration (c : Compiler σ E A) (s : σ) (before ts : List Token) :
    ∀ e ∈ (narration c s before ts : List (Event L)), e.level = "TRACE" := by
  induction ts generalizing before with
  | nil =>
      intro e h
      cases h
  | cons t ts ih =>
      intro e h
      rcases List.mem_append.mp h with here | later
      · rcases List.mem_cons.mp here with rfl | behind
        · rfl
        · exact level_of_told? (Option.mem_toList.mp behind)
      · exact ih _ e later

/-- What completes a grammar is told to a coarse log as well. -/
theorem Written.level_of_mem_trace (w : Written A L) : ∀ e ∈ w.trace, e.level = "DEBUG" := by
  intro e h
  rcases List.mem_append.mp h with block | last
  · obtain ⟨b, -, rfl⟩ := List.mem_map.mp block
    rfl
  · obtain rfl := List.mem_singleton.mp last
    rfl

omit [Label L] in
/-- A log keeps all events of its level and none of the other one. -/
theorem filter_level {level other : String} (apart : level ≠ other) {kept left : List (Event L)}
    (here : ∀ e ∈ kept, e.level = level) (there : ∀ e ∈ left, e.level = other) :
    kept.filter (·.level = level) = kept ∧ left.filter (·.level = level) = [] := by
  constructor
  · exact List.filter_eq_self.mpr fun e he => decide_eq_true (here e he)
  · refine List.filter_eq_nil_iff.mpr fun e he same => apart ?_
    rw [← of_decide_eq_true same, there e he]

/-! ## Whole parses -/

variable {source : String}

/-- What has been told when a source is accepted, and what it adds up to. -/
structure TellsGrammar (c : Compiler σ E A) (source : String) (s : σ) (w : Written A L)
    (trace : List (Event L)) : Prop where
  /-- The size of the source comes first, then the tokens with what they lead to, then the
      automata, and the grammar last. -/
  whole : trace = .started source.utf8ByteSize :: (narration c s [] (tokens source) ++
    (w.blocks.map (fun b => .embedded b.1 b.2.productions.length b.2.table.names.length
      b.2.table.terminals.length) ++
    [.finished w.start w.productions.length w.embedded.length]))
  /-- So are their messages: the opening one, those of the tokens with what stands behind
      them, and the closing ones. -/
  log : trace.map Event.message =
    ("parsing grammar of " ++ source.utf8ByteSize.repr ++ " bytes") ::
      (messages c s [] (tokens source) ++ w.messages)
  /-- A coarse log has the opening message and the closing ones. -/
  coarse : (trace.filter (·.level = "DEBUG")).map Event.message =
    ("parsing grammar of " ++ source.utf8ByteSize.repr ++ " bytes") :: w.messages
  /-- A fine log has the messages of the tokens besides. -/
  fine : (trace.filter (·.level = "TRACE")).map Event.message = messages c s [] (tokens source)
  /-- Every number is told when it is given, in order. -/
  given : trace.filterMap Event.recorded? = List.range w.recorded.length
  /-- Every number is told when its automaton is embedded, in order. -/
  embedded : (trace.filterMap Event.embedded?).map (·.1) = List.range w.recorded.length
  /-- The productions of the automata add up. -/
  sizes : ((trace.filterMap Event.embedded?).map (·.2)).sum = w.embedded.length
  /-- The productions that are told are the first of the grammar. -/
  productions : trace.filter (·.production?.isSome) =
    (w.grammar.productions.take w.productions.length).map Event.production
  /-- They are told as they are shown. -/
  shown : (trace.filter (·.production?.isSome)).map Event.message =
    (w.grammar.productions.take w.productions.length).map fun p => "production " ++ p.text
  /-- There are no others but those of the automata. -/
  total : w.productions.length + w.embedded.length = w.grammar.productions.length

/-- A parse that is accepted tells of all that is in its grammar. -/
theorem tellsGrammar {w : Written A L} (h : (read c source s).result = .ok w) :
    TellsGrammar c source s w (parse c source s).trace := by
  obtain ⟨whole, productions, numbers⟩ := read_trace_of_ok h
  obtain ⟨noProduction, noNumber, blocks⟩ := w.told_trace
  have ordered := (read_numbered h).numbers
  have told := parse_trace_of_ok h
  have embedded : (parse c source s).trace.filterMap Event.embedded? =
      w.blocks.map fun b => (b.1, b.2.productions.length) := by
    rw [told, whole, ← blocks]
    show (narration c s [] (tokens source) ++ w.trace).filterMap _ = _
    rw [List.filterMap_append, embedded?_narration, List.nil_append]
  have first : w.grammar.productions.take w.productions.length = w.productions :=
    List.take_left
  have written : (parse c source s).trace.filter (·.production?.isSome) =
      (w.grammar.productions.take w.productions.length).map Event.production := by
    rw [filter_production?, first, told]
    show (((read c source s).trace ++ w.trace).filterMap _).map _ = _
    rw [List.filterMap_append, productions, noProduction, List.append_nil]
  have reading := level_of_mem_narration (L := L) c s [] (tokens source)
  have closing := w.level_of_mem_trace
  refine ⟨?_, ?_, ?_, ?_, ?_, ?_, ?_, written, ?_, ?_⟩
  · rw [told, whole]
    rfl
  · rw [told, whole, List.map_cons, List.map_append, map_message_narration,
      Written.map_message_trace]
    rfl
  · obtain ⟨kept, left⟩ := filter_level (by decide) closing reading
    rw [told, whole, List.filter_cons_of_pos rfl, List.filter_append, kept, left, List.nil_append,
      List.map_cons, Written.map_message_trace]
    rfl
  · obtain ⟨kept, left⟩ := filter_level (by decide) reading closing
    rw [told, whole, List.filter_cons_of_neg Bool.false_ne_true, List.filter_append, kept, left,
      List.append_nil, map_message_narration]
  · rw [told]
    show ((read c source s).trace ++ w.trace).filterMap _ = _
    rw [List.filterMap_append, numbers, noNumber, List.append_nil, ordered]
  · rw [embedded, List.map_map, ← ordered]
    exact List.map_map
  · rw [embedded, List.map_map, Written.embedded, List.length_flatMap]
    rfl
  · rw [written, List.map_map]
    rfl
  · exact List.length_append.symm

/-- The log of a parse, from its source and its result.  The size of the source comes
    first, then every token that is read with what it leads to.  A refusal has nothing to
    add to the token that is out of place; an accepted source goes on with its automata and
    the grammar, and everything that is told adds up.  No two tokens leave one message. -/
theorem parse_tells (c : Compiler σ E A) (source : String) (s : σ) :
    (∀ e, (parse c source s).result = .error e →
      ∃ before t after, tokens source = before ++ t :: after ∧
        Blameless (c.consult (fragmentsOf (tokens source)) s) before ∧
        offence (c.consult (fragmentsOf (tokens source)) s) before t = some e ∧
        (parse c source s).trace =
          .started source.utf8ByteSize :: narration c s [] (before ++ [t]) ∧
        (parse c source s).trace.getLast? = some (.token t) ∧
        (parse c source s).trace.map Event.message =
          ("parsing grammar of " ++ source.utf8ByteSize.repr ++ " bytes") ::
            messages c s [] (before ++ [t]) ∧
        ((parse c source s).trace.map Event.message).getLast? = some t.message) ∧
    (∀ g, (parse c source s).result = .ok g →
      ∃ w : Written A L, (read c source s).result = .ok w ∧ w.grammar = g ∧
        TellsGrammar c source s w (parse c source s).trace) ∧
    ∀ t u : Token,
      (Event.token t : Event L).message = (Event.token u : Event L).message ↔ t = u := by
  refine ⟨?_, ?_, fun t u => Event.message_token_inj⟩
  · intro e h
    have refused := parse_eq_error_iff.mp h
    obtain ⟨before, t, after, split, blameless, offends, whole, last⟩ :=
      read_trace_of_error refused
    have told := parse_trace_of_error refused
    have ends : (parse c source s).trace.getLast? = some (.token t) := by
      rw [told, List.getLast?_cons, last]
      rfl
    refine ⟨before, t, after, split, blameless, offends, ?_, ends, ?_, ?_⟩
    · rw [told, whole]
    · rw [told, whole, List.map_cons, map_message_narration]
      rfl
    · rw [List.getLast?_map, ends, Option.map_some, Event.message_token]
  · intro g h
    obtain ⟨w, hw, complete⟩ := parse_eq_ok_iff.mp h
    exact ⟨w, hw, complete, tellsGrammar hw⟩

/-- One automaton is told of with its number, and what was written is completed by it. -/
theorem parse_tells_star :
    ∃ (g : Grammar CaseBlind) (w : Written (ListedAutomaton CaseBlind) CaseBlind),
      (parse letters "S -> a* T -> xy" ()).result = .ok g ∧ w.grammar = g ∧
        w.recorded.length = 1 ∧
        TellsGrammar letters "S -> a* T -> xy" () w
          (parse letters "S -> a* T -> xy" ()).trace := by
  have cut : tokens "S -> a* T -> xy" = [⟨.nonterminal, "S", ⟨0, 1⟩⟩, ⟨.arrow, "->", ⟨2, 4⟩⟩,
      ⟨.fragment, "a*", ⟨5, 7⟩⟩, ⟨.nonterminal, "T", ⟨8, 9⟩⟩, ⟨.arrow, "->", ⟨10, 12⟩⟩,
      ⟨.fragment, "xy", ⟨13, 15⟩⟩, ⟨.stop, "", ⟨15, 15⟩⟩] := by
    decide +kernel
  have reads : Label.isEpsilon (⟨"a"⟩ : CaseBlind) = false ∧
      Label.isEpsilon (⟨"xy"⟩ : CaseBlind) = false := by
    decide +kernel
  have written : (read letters "S -> a* T -> xy" ()).result =
      .ok ⟨.named "S", [⟨.named "S", [.nonterminal (.entry 0)]⟩,
        ⟨.named "T", [.terminal ⟨⟨"xy"⟩, "xy"⟩]⟩], [(0, ⟨0, [0], [0], [⟨0, 0, ⟨"a"⟩⟩]⟩)]⟩ := by
    simp [read, cut, Stage.run, Stage.turn, Draft.turn, Draft.opened, Draft.push, Draft.commit,
      Draft.production, Draft.chain, Draft.finish, Resolver.resolve, Resolver.empty,
      Resolver.learn, List.lookup_cons, letters, Compiler.ofFunction, Verdict.of_letter,
      Verdict.of_loop, reads]
  obtain ⟨-, complete, -⟩ := parse_tells letters "S -> a* T -> xy" ()
  have accepted := parse_eq_ok_iff.mpr ⟨_, written, rfl⟩
  obtain ⟨w, hw, whole, tells⟩ := complete _ accepted
  obtain rfl := Except.ok.inj (written.symm.trans hw)
  exact ⟨_, _, accepted, whole, rfl, tells⟩

end FragmentGrammar
