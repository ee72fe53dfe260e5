import FragmentGrammar.Proofs.Parser.Numbering
import FragmentGrammar.Proofs.Parser.Respaced

/-! # What a parse asks of its compiler

    A parse calls its compiler for the fragments behind the first two tokens, where each
    first occurs, and stops at the first token that is out of place.  Turn by turn, the
    compiler's state is the one behind just these calls (`Stage.Reflects.state_turn`), so a
    compiler that keeps a list of its calls has the whole of it (`parse_recorded`).  A
    parser hands on nothing but that state: each of its parses asks again about every
    fragment that it meets, and numbers its automata from zero (`parseAll_asks`). -/

namespace FragmentGrammar

variable {σ E A L : Type}

/-! ## Asking in turn -/

/-- The state of a compiler behind texts that it is asked one after the other. -/
def Compiler.after (c : Compiler σ E A) (texts : List String) (s : σ) : σ :=
  texts.foldl (fun s text => (c text s).2) s

section After

variable (c : Compiler σ E A)

theorem after_append (xs ys : List String) (s : σ) :
    c.after (xs ++ ys) s = c.after ys (c.after xs s) :=
  List.foldl_append

/-- A compiler that keeps its calls answers as it does without. -/
theorem consult_recorded (texts : List String) (s : σ) (log : List (String × Except E A)) :
    c.recorded.consult texts (s, log) = c.consult texts s := by
  induction texts generalizing s log with
  | nil => rfl
  | cons text texts ih => exact congrArg _ (ih _ _)

/-- A compiler that keeps its calls has kept them all, with their answers. -/
theorem after_recorded (texts : List String) (s : σ) (log : List (String × Except E A)) :
    c.recorded.after texts (s, log) = (c.after texts s, log ++ c.consult texts s) := by
  induction texts generalizing s log with
  | nil =>
      show (s, log) = (s, log ++ [])
      rw [List.append_nil]
  | cons text texts ih =>
      show c.recorded.after texts ((c text s).2, log ++ [(text, (c text s).1)]) = _
      rw [ih, List.append_assoc]
      rfl

end After

/-! ## The tokens up to the first offence -/

variable [Automaton A L] [Label L]
variable {c : Compiler σ E A} {s₀ s : σ} {ts before : List Token} {t : Token}

/-- The tokens behind `before` up to the first that is out of place, that one included. -/
def upToOffence (answers : List (String × Except E A)) (before : List Token) :
    List Token → List Token
  | [] => []
  | t :: ts =>
    t :: if (offence answers before t).isSome then [] else upToOffence answers (before ++ [t]) ts

/-- The texts that a parse asks its compiler about: the fragments behind the first two
    tokens, each where it first occurs, up to the first token that is out of place. -/
def asked (c : Compiler σ E A) (source : String) (s : σ) : List String :=
  fragmentsOf (upToOffence (c.consult (fragmentsOf (tokens source)) s) [] (tokens source))

/-- None of the tokens that were read is out of place. -/
theorem Reads.upToOffence_eq {stage : Stage A L} {trace : List (Event L)}
    (h : Reads c .opening s₀ before stage s trace) (within : before <+: ts)
    (after : List Token) :
    upToOffence (c.consult (fragmentsOf ts) s₀) [] (before ++ after) =
      before ++ upToOffence (c.consult (fragmentsOf ts) s₀) before after := by
  induction h generalizing after with
  | start => rfl
  | @snoc before stage next s trace t reads on ih =>
      have shorter : before <+: ts := (List.prefix_append ..).trans within
      have quiet := (reads.reflects shorter).refusal?_turn within
      rw [on] at quiet
      rw [List.append_assoc, ih shorter, List.singleton_append, upToOffence, ← quiet,
        List.append_assoc]
      rfl

/-! ## One turn -/

/-- Resolving a fragment calls the compiler unless the fragment was met before. -/
theorem Consulted.state_resolve {r : Resolver A L} (h : Consulted c s₀ before r s)
    (ht : t.kind = .fragment) (long : 2 ≤ before.length)
    (same : s = c.after (fragmentsOf before) s₀) :
    (r.resolve c t.source s).state = c.after (fragmentsOf (before ++ [t])) s₀ := by
  rw [h.resolver, fragmentsOf_concat ht long, after_append, ← same]
  cases hk : (c.automata before s₀).lookup t.source with
  | some a =>
      have old : t.source ∈ fragmentsOf before := by
        by_contra new
        rw [h.lookup_eq_none_iff.mpr new] at hk
        cases hk
      rw [Resolver.resolve_knowing_of_known hk, if_pos old]
      rfl
  | none =>
      rw [if_neg (h.lookup_eq_none_iff.mp hk)]
      show _ = (c t.source s).2
      cases hc : c t.source s with
      | mk answer s' =>
          cases answer with
          | error e => rw [Resolver.resolve_knowing_of_error hk hc]
          | ok a =>
              have resolved := Resolver.resolve_knowing_of_ok (L := L) hk hc
              rw [resolved]

/-- The calls for the tokens up to `t` go with what is said of `t`: all of them are answered
    with automata, and it is not the compiler that refuses the token, or else the last of
    them fails and is the reason. -/
def CallsMatch (c : Compiler σ E A) (s₀ : σ) (ts before : List Token) (t : Token) : Prop :=
  ((∀ x ∈ c.consult (fragmentsOf (before ++ [t])) s₀, ∃ a, x.2 = .ok a) ∧
    ∀ e, offence (c.consult (fragmentsOf ts) s₀) before t ≠ some (.fragment e)) ∨
  ∃ e, c.consult (fragmentsOf (before ++ [t])) s₀ =
      c.consult (fragmentsOf before) s₀ ++ [(t.source, .error e)] ∧
    offence (c.consult (fragmentsOf ts) s₀) before t = some (.fragment e)

theorem Consulted.callsMatch {r : Resolver A L} (h : Consulted c s₀ before r s)
    (ht : t.kind = .fragment) (long : 2 ≤ before.length) (within : before ++ [t] <+: ts) :
    CallsMatch c s₀ ts before t := by
  rw [CallsMatch, offence_of_fragment long ht]
  by_cases old : t.source ∈ fragmentsOf before
  · obtain ⟨-, step⟩ := h.of_mem ht long old
    have same : fragmentsOf (before ++ [t]) = fragmentsOf before := by
      rw [fragmentsOf_concat ht long, if_pos old, List.append_nil]
    obtain ⟨a, known⟩ := step.exists_lookup (same.symm ▸ old)
    have answer := lookup_consult_of_prefix within
      ((step.lookup t.source).trans (congrArg (Option.map Except.ok) known))
    refine .inl ⟨step.automata, ?_⟩
    rw [answer]
    simp [refusalOf]
  · -- the answer that comes last is the one to this fragment
    have grown := h.consult_concat ht long old []
    rw [List.append_nil] at grown
    have mem : (t.source, (c t.source s).1) ∈ c.consult (fragmentsOf (before ++ [t])) s₀ := by
      rw [grown]
      exact List.mem_append_right _ (List.mem_singleton.mpr rfl)
    have answer := lookup_consult_of_prefix within (lookup_of_mem_consult (nodup_fragmentsOf _) mem)
    rw [answer, grown]
    cases (c t.source s).1 with
    | error e => exact .inr ⟨e, rfl, rfl⟩
    | ok a =>
        refine .inl ⟨?_, by simp [refusalOf]⟩
        intro x hx
        rcases List.mem_append.mp hx with earlier | last
        · exact h.automata x earlier
        · obtain rfl := List.mem_singleton.mp last
          exact ⟨a, rfl⟩

namespace Stage.Reflects

variable {stage : Stage A L}

/-- Behind two tokens the first arrow has been read. -/
theorem exists_draft (h : stage.Reflects c s₀ ts before s) (long : 2 ≤ before.length) :
    ∃ d, stage = .rules d ∧ d.Follows (symbolOf (c.automata ts s₀)) before ∧
      Consulted c s₀ before d.resolver s := by
  cases h with
  | opening => simp at long
  | named => simp at long
  | rules follows consulted => exact ⟨_, rfl, follows, consulted⟩

/-- Where a reading goes on, the compiler has answered with automata. -/
theorem answered (h : stage.Reflects c s₀ ts before s) :
    ∀ x ∈ c.consult (fragmentsOf before) s₀, ∃ a, x.2 = .ok a := by
  by_cases long : 2 ≤ before.length
  · obtain ⟨d, -, -, consulted⟩ := h.exists_draft long
    exact consulted.automata
  · rw [fragmentsOf_of_short (Nat.le_of_not_le long)]
    intro x hx
    cases hx

/-- A token that asks for nothing leaves the compiler alone. -/
theorem state_turn_of_quiet (h : stage.Reflects c s₀ ts before s)
    (quiet : before.length < 2 ∨ t.kind ≠ .fragment) : (stage.turn c t s).state = s := by
  cases h with
  | opening =>
      by_cases hk : t.kind = .nonterminal
      · rw [Stage.turn_opening_of_nonterminal hk]
      · rw [Stage.turn_opening_of_ne hk]
        rfl
  | named =>
      by_cases hk : t.kind = .arrow
      · rw [Stage.turn_named_of_arrow hk]
      · rw [Stage.turn_named_of_ne hk]
        rfl
  | @rules _ d _ follows _ =>
      have long := follows.two_le_length
      have other : t.kind ≠ .fragment := by
        rcases quiet with short | other
        · omega
        · exact other
      exact Draft.turn_state_of_ne other

/-- A turn leaves the compiler as the calls for the tokens up to its own one do. -/
theorem state_turn (h : stage.Reflects c s₀ ts before s)
    (same : s = c.after (fragmentsOf before) s₀) :
    (stage.turn c t s).state = c.after (fragmentsOf (before ++ [t])) s₀ := by
  by_cases quiet : before.length < 2 ∨ t.kind ≠ .fragment
  · rw [h.state_turn_of_quiet quiet, fragmentsOf_concat_of_quiet quiet]
    exact same
  · obtain ⟨long, fragment⟩ := not_or.mp quiet
    rw [Nat.not_lt] at long
    rw [Decidable.not_not] at fragment
    obtain ⟨d, rfl, -, consulted⟩ := h.exists_draft long
    show (d.turn c t s).state = _
    rw [Draft.turn_state_of_fragment fragment]
    exact consulted.state_resolve fragment long same

theorem callsMatch (h : stage.Reflects c s₀ ts before s) (within : before ++ [t] <+: ts) :
    CallsMatch c s₀ ts before t := by
  by_cases quiet : before.length < 2 ∨ t.kind ≠ .fragment
  · refine .inl ⟨?_, offence_ne_fragment quiet⟩
    rw [fragmentsOf_concat_of_quiet quiet]
    exact h.answered
  · obtain ⟨long, fragment⟩ := not_or.mp quiet
    rw [Nat.not_lt] at long
    rw [Decidable.not_not] at fragment
    obtain ⟨d, -, -, consulted⟩ := h.exists_draft long
    exact consulted.callsMatch fragment long within

end Stage.Reflects

/-! ## A whole reading -/

/-- A row of turns leaves the compiler as the calls for its tokens do. -/
theorem Reads.state_eq {stage : Stage A L} {trace : List (Event L)}
    (h : Reads c .opening s₀ before stage s trace) (within : before <+: ts) :
    s = c.after (fragmentsOf before) s₀ := by
  induction h with
  | start => rfl
  | snoc reads _ ih =>
      have shorter := (List.prefix_append ..).trans within
      exact (reads.reflects shorter).state_turn (ih shorter)

/-- A reading ends at the first token that is out of place, or else at the last one, with
    the calls for the fragments up to it. -/
theorem read_ends (c : Compiler σ E A) (source : String) (s : σ) :
    ∃ (before : List Token) (t : Token) (stage : Stage A L) (s' : σ),
      before ++ [t] <+: tokens source ∧
      upToOffence (c.consult (fragmentsOf (tokens source)) s) [] (tokens source) =
        before ++ [t] ∧
      stage.Reflects c s (tokens source) before s' ∧
      offence (c.consult (fragmentsOf (tokens source)) s) before t =
        refusalOf (read c source s).result ∧
      (read c source s).state = c.after (fragmentsOf (before ++ [t])) s ∧
      ∀ w, (read c source s).result = .ok w → tokens source = before ++ [t] := by
  obtain ⟨before, t, after, stage, s', trace, stops⟩ := exists_stopsAt c source s
  refine ⟨before, t, stage, s', stops.within, ?_, stops.reflects, stops.offends, ?_, ?_⟩
  · have ahead := stops.reads.upToOffence_eq stops.before_within (t :: after)
    rw [← stops.split, upToOffence, stops.offends] at ahead
    rw [ahead]
    cases hr : (read c source s).result with
    | error e => rfl
    | ok w =>
        obtain ⟨-, -, -, -, rfl⟩ := stops.exists_draft hr
        rfl
  · rw [stops.state]
    exact stops.reflects.state_turn (stops.reads.state_eq stops.before_within)
  · intro w hw
    obtain ⟨-, -, -, -, rfl⟩ := stops.exists_draft hw
    exact stops.split

/-- A parse leaves the compiler as its calls do. -/
theorem parse_state_eq (c : Compiler σ E A) (source : String) (s : σ) :
    (parse c source s).state = c.after (asked c source s) s := by
  obtain ⟨before, t, _, _, -, upTo, -, -, state, -⟩ := read_ends c source s
  rw [parse_state, state, asked, upTo]

/-- What a compiler keeps of its calls may be forgotten. -/
def Translation.forgetting (c : Compiler σ E A) : Translation c.recorded c where
  label := id
  automaton := id
  place := id
  state := Prod.fst
  verdict := Verdict.of_id
  asked text s := by
    show _ = ((c text s.1).1.map id, (c text s.1).2)
    rw [Except.map_id]
    rfl

/-- A parse with a compiler that keeps its calls comes to the same, and the calls that it
    keeps are those for the texts that are asked about. -/
theorem parse_recorded (c : Compiler σ E A) (source : String) (s : σ)
    (log : List (String × Except E A)) :
    (parse c.recorded source (s, log)).result = (parse c source s).result ∧
      (parse c.recorded source (s, log)).state =
        ((parse c source s).state, log ++ c.consult (asked c source s) s) := by
  constructor
  · have read := ((Translation.forgetting c).read_eq rfl source (s, log)).1
    have same : (Written.map id id : Written A L → Written A L) = id := Written.map_id
    rw [parse_result, parse_result]
    refine congrArg (Except.map Written.grammar) ?_
    refine Eq.trans ?_ read.symm
    show _ = Except.map (Written.map id id) _
    rw [same, Except.map_id]
    rfl
  · have texts : asked c.recorded source (s, log) = asked c source s := by
      rw [asked, asked, consult_recorded]
    rw [parse_state_eq, parse_state_eq, texts, after_recorded]

/-! ## What is asked -/

/-- The calls of a parse to its compiler, seen from the source and the result. -/
structure Asks (c : Compiler σ E A) (source : String) (s : σ)
    (result : Except (ParseError E) (Grammar L)) (calls : List (String × Except E A)) : Prop where
  /-- Every fragment up to the first token that is out of place is asked about where it
      first occurs, and nothing else is. -/
  order : calls = c.consult (asked c source s) s
  /-- No text is asked about twice. -/
  once : (calls.map (·.1)).Nodup
  /-- The tokens that are looked at end with the one that settles the result. -/
  upTo : ∃ before t, before ++ [t] <+: tokens source ∧
    upToOffence (c.consult (fragmentsOf (tokens source)) s) [] (tokens source) = before ++ [t] ∧
    offence (c.consult (fragmentsOf (tokens source)) s) before t = refusalOf result
  /-- Nothing is asked unless a name and an arrow come first. -/
  opening : ((tokens source).take 2).map (·.kind) ≠ [.nonterminal, .arrow] → calls = []
  /-- Only the last call may fail. -/
  answered : ∀ x ∈ calls.dropLast, ∃ a, x.2 = .ok a
  /-- A call that fails is what the source is refused for. -/
  refused : ∀ e, result = .error (.fragment e) ↔ ∃ text, calls.getLast? = some (text, .error e)
  /-- In an accepted source every fragment is asked about, and the automata that are
      embedded are numbered from zero, in the order of these calls. -/
  accepted : ∀ g, result = .ok g → calls.map (·.1) = fragmentsOf (tokens source) ∧
    ∃ w : Written A L, (read c source s).result = .ok w ∧ g = w.grammar ∧
      w.recorded = (embeddedOf (automataOf calls)).zipIdx.map (fun x => (x.2, x.1.2)) ∧
      Numbered w

/-- Nothing is asked unless a name and an arrow come first. -/
theorem asked_eq_nil {source : String}
    (h : ((tokens source).take 2).map (·.kind) ≠ [.nonterminal, .arrow]) :
    asked c source s = [] := by
  obtain ⟨before, t, stage, s', within, upTo, reflects, -⟩ := read_ends c source s
  rw [asked, upTo]
  by_cases long : 2 ≤ before.length
  · obtain ⟨d, -, follows, -⟩ := reflects.exists_draft long
    obtain ⟨first, second, more, rfl, hf, hs, -⟩ := follows.opened
    obtain ⟨after, whole⟩ := within
    rw [← whole] at h
    exact absurd (by simp [hf, hs]) h
  · rw [Nat.not_le] at long
    refine fragmentsOf_of_short ?_
    rw [List.length_append]
    exact long

/-- The last call of a parse fails exactly when the source is refused for it, and no other
    call fails. -/
theorem consult_asked (c : Compiler σ E A) (source : String) (s : σ) :
    (∀ x ∈ (c.consult (asked c source s) s).dropLast, ∃ a, x.2 = .ok a) ∧
    ∀ e, refusalOf (read c source s).result = some (.fragment e) ↔
      ∃ text, (c.consult (asked c source s) s).getLast? = some (text, .error e) := by
  obtain ⟨before, t, stage, s', within, upTo, reflects, offends, -⟩ := read_ends c source s
  rw [asked, upTo, ← offends]
  rcases reflects.callsMatch within with ⟨ok, other⟩ | ⟨e, calls, refused⟩
  · constructor
    · intro x hx
      exact ok x ((List.dropLast_prefix _).subset hx)
    · intro e
      constructor
      · intro h
        exact absurd h (other e)
      · rintro ⟨text, last⟩
        obtain ⟨a, ha⟩ := ok _ (List.mem_of_getLast? last)
        cases ha
  · rw [calls, refused]
    constructor
    · rw [List.dropLast_concat]
      exact reflects.answered
    · intro e'
      rw [List.getLast?_concat]
      constructor
      · intro h
        obtain rfl := ParseError.fragment.inj (Option.some.inj h)
        exact ⟨t.source, rfl⟩
      · rintro ⟨text, last⟩
        obtain ⟨-, same⟩ := Prod.mk.inj (Option.some.inj last)
        rw [Except.error.inj same]

theorem parse_asks (c : Compiler σ E A) (source : String) (s : σ) :
    Asks c source s (parse c source s).result (c.consult (asked c source s) s) := by
  obtain ⟨before, t, stage, s', within, upTo, -, offends, -, whole⟩ := read_ends c source s
  obtain ⟨answered, refused⟩ := consult_asked c source s
  -- a source is refused where its reading is, and for the same reason
  have settled : refusalOf (parse c source s).result = refusalOf (read c source s).result := by
    rw [parse_result]
    cases (read c source s).result <;> rfl
  refine ⟨rfl, ?_, ?_, ?_, answered, ?_, ?_⟩
  · rw [map_fst_consult]
    exact nodup_fragmentsOf _
  · exact ⟨before, t, within, upTo, offends.trans settled.symm⟩
  · intro h
    rw [asked_eq_nil h]
    rfl
  · intro e
    rw [← refused, ← settled]
    cases (parse c source s).result with
    | error e' => simp [refusalOf]
    | ok g => simp [refusalOf]
  · intro g hg
    obtain ⟨w, hw, rfl⟩ := parse_eq_ok_iff.mp hg
    have texts : asked c source s = fragmentsOf (tokens source) := by
      rw [asked, upTo, ← whole w hw]
    rw [map_fst_consult, texts]
    exact ⟨rfl, w, hw, rfl, (read_consulted hw).2, read_numbered hw⟩

/-! ## A row of parses -/

theorem parseAll_append (c : Compiler σ E A) (earlier later : List String) (s : σ) :
    parseAll (L := L) c (earlier ++ later) s =
      ((parseAll c earlier s).1 ++ (parseAll c later (parseAll (L := L) c earlier s).2).1,
        (parseAll c later (parseAll (L := L) c earlier s).2).2) := by
  induction earlier generalizing s with
  | nil => rfl
  | cons source earlier ih =>
      rw [List.cons_append, parseAll, ih]
      rfl

theorem length_parseAll (c : Compiler σ E A) (sources : List String) (s : σ) :
    (parseAll (L := L) c sources s).1.length = sources.length := by
  induction sources generalizing s with
  | nil => rfl
  | cons source sources ih => exact congrArg Nat.succ (ih _)

/-- Keeping the calls does not change the states of the compiler. -/
theorem parseAll_recorded (c : Compiler σ E A) (sources : List String) (s : σ)
    (log : List (String × Except E A)) :
    (parseAll c.recorded sources (s, log)).2.1 = (parseAll c sources s).2 := by
  induction sources generalizing s log with
  | nil => rfl
  | cons source sources ih =>
      show (parseAll c.recorded sources (parse c.recorded source (s, log)).state).2.1 = _
      rw [(parse_recorded c source s log).2, ih]
      rfl

/-- Behind other parses a parse starts from the state of the compiler that they leave, and
    from nothing else. -/
theorem parseAll_getElem? (c : Compiler σ E A) (earlier : List String) (source : String)
    (later : List String) (s : σ) :
    (parseAll (L := L) c (earlier ++ source :: later) s).1[earlier.length]? =
        some (parse c source (parseAll (L := L) c earlier s).2) ∧
      (parseAll (L := L) c (earlier ++ [source]) s).2 =
        (parse c source (parseAll (L := L) c earlier s).2).state := by
  rw [parseAll_append, parseAll_append]
  constructor
  · rw [List.getElem?_append_right (Nat.le_of_eq (length_parseAll c earlier s)), length_parseAll,
      Nat.sub_self]
    rfl
  · rfl

/-- A parser is given any sources, one after the other.  Each parse asks the compiler about
    the fragments of its own source, in order and each once, up to the first token that is
    out of place.  Whatever was asked in the parses before, and whether they failed, shows
    in nothing but the state that the compiler has by then: every fragment is asked about
    again, and the automata are numbered from zero. -/
theorem parseAll_asks (c : Compiler σ E A) (earlier : List String) (source : String)
    (later : List String) (s : σ) :
    ∃ (s' : σ) (log : List (String × Except E A))
      (o : Outcome (σ × List (String × Except E A)) E L (Grammar L))
      (calls : List (String × Except E A)),
      (parseAll (L := L) c.recorded earlier (s, [])).2 = (s', log) ∧
      (parseAll (L := L) c earlier s).2 = s' ∧
      (parseAll c.recorded (earlier ++ source :: later) (s, [])).1[earlier.length]? = some o ∧
      (parseAll (L := L) c.recorded (earlier ++ [source]) (s, [])).2 = o.state ∧
      o.state = (c.after (calls.map (·.1)) s', log ++ calls) ∧
      (parseAll c (earlier ++ source :: later) s).1[earlier.length]?.map (·.result) =
        some o.result ∧
      Asks c source s' o.result calls := by
  have kept := parseAll_recorded c earlier s []
  obtain ⟨s', log, left⟩ : ∃ s' log, (parseAll (L := L) c.recorded earlier (s, [])).2 = (s', log) :=
    ⟨_, _, rfl⟩
  rw [left] at kept
  obtain ⟨result, state⟩ := parse_recorded c source s' log
  obtain ⟨placed, next⟩ := parseAll_getElem? c.recorded earlier source later (s, [])
  obtain ⟨alone, -⟩ := parseAll_getElem? c earlier source later s
  rw [left] at placed next
  rw [← kept] at alone
  refine ⟨s', log, _, _, left, kept.symm, placed, next, ?_, ?_, result ▸ parse_asks c source s'⟩
  · rw [state, map_fst_consult, parse_state_eq]
  · rw [alone, result]
    rfl

/-- A fragment that comes back is not asked about again, nor one behind an offence. -/
example : asked letters "S -> x* a | a x* T -> x*" () = ["x*", "a"] ∧
    asked letters "S -> a* - b" () = ["a*"] := by
  decide +kernel

end FragmentGrammar
