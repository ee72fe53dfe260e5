import FragmentGrammar.Proofs.Parser.Invariant
import FragmentGrammar.Proofs.Parser.Offence

/-! # A source is refused for its first offence

    A turn refuses its token exactly when that token offends, and for the same reason
    (`Stage.Reflects.refusal?_turn`): the reader goes by its draft and its resolver, the
    offence by the tokens before and the answers of the compiler, and these are in step.
    Turn by turn, the reading of a source then ends at its first offence, and a source is
    accepted when there is none (`parse_refuses_firstOffence`). -/

namespace FragmentGrammar

variable {σ E A L : Type}

/-- The error that the reading ends with, if it ends here with one. -/
def Progress.refusal? : Progress E A L → Option (ParseError E)
  | .over result => refusalOf result
  | .on _ => none

variable [Automaton A L] [Label L]
variable {c : Compiler σ E A} {s₀ s : σ} {source : String} {ts before : List Token} {t : Token}

/-! ## One turn -/

/-- The body of a draft is empty when all words since the last break have vanished. -/
theorem body_eq_nil_iff_vanish {d : Draft A L}
    (follows : d.Follows (symbolOf (c.automata ts s₀)) before)
    (consulted : Consulted c s₀ before d.resolver s) (within : before <+: ts) :
    d.body = [] ↔ ((sinceBreak before).all fun u =>
      u.kind = .fragment && vanishes (c.consult (fragmentsOf ts) s₀) u.source) = true := by
  rw [follows.body_eq_nil_iff, List.all_eq_true]
  refine forall₂_congr ?_
  intro u hu
  rw [Bool.and_eq_true, decide_eq_true_iff]
  refine and_congr_right ?_
  intro fragment
  have asked : u.source ∈ fragmentsOf before :=
    mem_fragmentsOf.mpr ⟨u, follows.mem_drop_of_mem_sinceBreak hu, fragment, rfl⟩
  rw [consulted.vanishes_iff within asked]

namespace Stage.Reflects

theorem refusal?_draft_turn {d : Draft A L}
    (follows : d.Follows (symbolOf (c.automata ts s₀)) before)
    (consulted : Consulted c s₀ before d.resolver s) (within : before ++ [t] <+: ts) :
    (d.turn c t s).progress.refusal? = offence (c.consult (fragmentsOf ts) s₀) before t := by
  have long := follows.two_le_length
  cases hk : t.kind with
  | nonterminal =>
      rw [Draft.turn_of_nonterminal hk, offence_of_quiet long (Or.inl hk)]
      rfl
  | bar =>
      rw [Draft.turn_of_bar hk, offence_of_quiet long (Or.inr (Or.inl hk))]
      rfl
  | stop =>
      rw [Draft.turn_of_stop hk, offence_of_quiet long (Or.inr (Or.inr hk))]
      rfl
  | unknown =>
      rw [Draft.turn_of_unknown hk, offence_of_unknown hk]
      rfl
  | fragment =>
      rw [offence_of_fragment long hk]
      cases hr : (d.resolver.resolve c t.source s).answer with
      | error e =>
          have refused := consulted.resolve_error hk long hr
          rw [Draft.turn_of_unresolved hk hr, lookup_consult_of_prefix within refused]
          rfl
      | ok symbol =>
          obtain ⟨step, a, known, -⟩ := consulted.resolve_ok hk long hr
          have answered : (c.consult (fragmentsOf (before ++ [t])) s₀).lookup t.source =
              some (.ok a) := by
            rw [step.lookup, known]
            rfl
          rw [Draft.turn_of_resolved hk hr, lookup_consult_of_prefix within answered]
          rfl
  | arrow =>
      rw [offence_of_arrow long follows.previous hk]
      by_cases hp : d.previous.kind = .nonterminal
      · obtain ⟨p, d', chained, -⟩ := follows.arrow hp hk
        rw [if_pos hp, Draft.turn_of_chain hk chained]
        rfl
      · have empty := body_eq_nil_iff_vanish follows consulted
          ((List.prefix_append ..).trans within)
        rw [if_neg hp]
        by_cases hb : d.body = []
        · rw [Draft.turn_of_no_chain hk (Draft.chain_of_nil hb), if_pos (empty.mp hb)]
          rfl
        · rw [Draft.turn_of_no_chain hk (Draft.chain_of_ne hb hp),
            if_neg fun h => hb (empty.mpr h)]
          rfl

/-- A turn refuses its token exactly when the token offends, and for the same reason. -/
theorem refusal?_turn {stage : Stage A L} (h : stage.Reflects c s₀ ts before s)
    (within : before ++ [t] <+: ts) :
    (stage.turn c t s).progress.refusal? =
      offence (c.consult (fragmentsOf ts) s₀) before t := by
  cases h with
  | opening =>
      by_cases hk : t.kind = .nonterminal
      · rw [Stage.turn_opening_of_nonterminal hk, offence_first_eq_none.mpr hk]
        rfl
      · rw [Stage.turn_opening_of_ne hk]
        by_cases unknown : t.kind = .unknown
        · rw [if_pos unknown, offence_of_unknown unknown]
          rfl
        · rw [if_neg unknown, offence_first unknown, if_neg hk]
          rfl
  | @named first hf =>
      by_cases hk : t.kind = .arrow
      · rw [Stage.turn_named_of_arrow hk, offence_second_eq_none.mpr hk]
        rfl
      · rw [Stage.turn_named_of_ne hk]
        by_cases unknown : t.kind = .unknown
        · rw [if_pos unknown, offence_of_unknown unknown]
          rfl
        · rw [if_neg unknown, offence_second unknown, if_neg hk]
          rfl
  | rules follows consulted => exact refusal?_draft_turn follows consulted within

end Stage.Reflects

/-! ## All turns -/

/-- None of the tokens that were read offends, so the first offence is still ahead. -/
theorem Reads.firstOffence_eq {stage : Stage A L} {trace : List (Event L)}
    (h : Reads c .opening s₀ before stage s trace) (within : before <+: ts)
    (after : List Token) :
    firstOffence (c.consult (fragmentsOf ts) s₀) [] (before ++ after) =
      firstOffence (c.consult (fragmentsOf ts) s₀) before after := by
  induction h generalizing after with
  | start => rfl
  | @snoc before stage next s trace t reads on ih =>
      have shorter : before <+: ts := (List.prefix_append ..).trans within
      have quiet := (reads.reflects shorter).refusal?_turn within
      rw [on] at quiet
      rw [List.append_assoc, ih shorter, List.singleton_append, firstOffence, ← quiet]
      rfl

namespace StopsAt

variable {after : List Token} {stage : Stage A L} {trace : List (Event L)}

/-- A reading stops with the offence of the token where it stops. -/
theorem offends (h : StopsAt c s₀ source before t after stage s trace) :
    offence (c.consult (fragmentsOf (tokens source)) s₀) before t =
      refusalOf (read c source s₀).result := by
  rw [← h.reflects.refusal?_turn h.within, h.ended]
  rfl

/-- No token offends in front of the one where a reading stops. -/
theorem blameless (h : StopsAt c s₀ source before t after stage s trace) :
    Blameless (c.consult (fragmentsOf (tokens source)) s₀) before := by
  have quiet := h.reads.firstOffence_eq h.before_within []
  rw [List.append_nil, firstOffence] at quiet
  exact (firstOffence_eq_none [] before).mp quiet

end StopsAt

/-- Reading ends with the error of the first offence, if there is one. -/
theorem refusalOf_read (c : Compiler σ E A) (source : String) (s : σ) :
    refusalOf (read c source s).result =
      firstOffence (c.consult (fragmentsOf (tokens source)) s) [] (tokens source) := by
  obtain ⟨before, t, after, stage, s', trace, stops⟩ := exists_stopsAt c source s
  have ahead := stops.reads.firstOffence_eq stops.before_within (t :: after)
  rw [← stops.split, firstOffence, stops.offends] at ahead
  rw [ahead]
  cases hr : (read c source s).result with
  | error e => rfl
  | ok w =>
      obtain ⟨d, -, -, -, rfl⟩ := stops.exists_draft hr
      rfl

/-- A source is accepted when its tokens are in order and its fragments have automata. -/
theorem exists_parse_ok (orderly : Orderly (tokens source))
    (ok : ∀ x ∈ c.consult (fragmentsOf (tokens source)) s, ∃ a, x.2 = .ok a) :
    ∃ g : Grammar L, (parse c source s).result = .ok g := by
  have quiet := refusalOf_read c source s
  rw [(firstOffence_eq_none_iff (isStream_tokens source)).mpr ⟨orderly, ok⟩] at quiet
  rw [parse]
  cases hr : (read c source s).result with
  | error e =>
      rw [hr] at quiet
      cases quiet
  | ok w => exact ⟨w.grammar, rfl⟩

/-- A source is refused with the error of its first offending token and for nothing else:
    it is accepted exactly when its tokens are in order and the compiler gives an
    automaton for every fragment. -/
theorem parse_refuses_firstOffence (c : Compiler σ E A) (source : String) (s : σ) :
    (∀ e, (parse c source s).result = .error e ↔
      firstOffence (c.consult (fragmentsOf (tokens source)) s) [] (tokens source) = some e) ∧
    ((∃ g, (parse c source s).result = .ok g) ↔ Orderly (tokens source) ∧
      ∀ x ∈ c.consult (fragmentsOf (tokens source)) s, ∃ a, x.2 = .ok a) := by
  rw [← firstOffence_eq_none_iff (isStream_tokens source), ← refusalOf_read, parse]
  cases hr : (read c source s).result with
  | error e => simp [refusalOf]
  | ok w => simp [refusalOf]

end FragmentGrammar
