import FragmentGrammar.Parser
import FragmentGrammar.Proofs.Lexer.Stream

/-! # How far a reading gets

    A reading is a row of turns that go on, followed by one that does not.  `Reads` is the
    row and `EndsAt` the whole: what is proved of a single turn carries over to a reading
    by induction on `Reads`.  Since a stream has an end and no turn goes on from there,
    every reading ends at some token of its source (`read_endsAt`). -/

namespace FragmentGrammar

variable {σ E A L : Type} [Automaton A L] [Label L]

/-- From the stage `first` every token of a list is read in turn, the compiler starting in
    the state `s₀`; the stage and the state behind them, and what was told on the way. -/
inductive Reads (c : Compiler σ E A) (first : Stage A L) (s₀ : σ) :
    List Token → Stage A L → σ → List (Event L) → Prop
  | start : Reads c first s₀ [] first s₀ []
  | snoc {ts : List Token} {stage next : Stage A L} {s : σ} {trace : List (Event L)} {t : Token} :
      Reads c first s₀ ts stage s trace → (stage.turn c t s).progress = .on next →
      Reads c first s₀ (ts ++ [t]) next (stage.turn c t s).state
        (trace ++ .token t :: (stage.turn c t s).trace)

/-- Every token of `before` is read from the start of a source, and the token `t` behind
    them ends the reading with the outcome `o`. -/
def EndsAt (c : Compiler σ E A) (s₀ : σ) (before : List Token) (t : Token)
    (o : Outcome σ E L (Written A L)) : Prop :=
  ∃ stage s trace, Reads c .opening s₀ before stage s trace ∧
    (stage.turn c t s).progress = .over o.result ∧ o.state = (stage.turn c t s).state ∧
    o.trace = trace ++ .token t :: (stage.turn c t s).trace

variable {c : Compiler σ E A} {s s₀ : σ} {stage first next : Stage A L}

/-- No turn goes on from a token that ends its stream. -/
theorem turn_over_of_isLast (c : Compiler σ E A) (stage : Stage A L) (s : σ) {t : Token}
    (h : t.kind.isLast = true) :
    ∃ result, (stage.turn c t s).progress = .over result := by
  have kinds : t.kind = .unknown ∨ t.kind = .stop := by
    simpa [TokenKind.isLast] using h
  rcases kinds with hk | hk <;> cases stage <;>
    simp [Stage.turn, Draft.turn, Turn.refuse, hk]

namespace Reads

variable {ts : List Token} {trace : List (Event L)} {t : Token}

/-- A turn that goes on may be put in front. -/
theorem cons (ht : (first.turn c t s₀).progress = .on next)
    (h : Reads c next (first.turn c t s₀).state ts stage s trace) :
    Reads c first s₀ (t :: ts) stage s (.token t :: (first.turn c t s₀).trace ++ trace) := by
  induction h with
  | start =>
      rw [List.append_nil]
      exact snoc .start ht
  | snoc _ hu ih =>
      rw [← List.append_assoc, ← List.cons_append]
      exact snoc ih hu

/-- None of the tokens that were read ends a stream. -/
theorem not_isLast (h : Reads c first s₀ ts stage s trace) :
    ∀ t ∈ ts, t.kind.isLast = false := by
  induction h with
  | start =>
      intro t ht
      cases ht
  | @snoc ts stage next s trace u _ hu ih =>
      intro t ht
      rcases List.mem_append.mp ht with old | new
      · exact ih t old
      · obtain rfl := List.mem_singleton.mp new
        rw [← Bool.not_eq_true]
        intro last
        obtain ⟨result, ended⟩ := turn_over_of_isLast c stage s last
        rw [hu] at ended
        cases ended

/-- Running goes on from where a row of turns has led. -/
theorem run_append (h : Reads c first s₀ ts stage s trace) (size : Nat) (us : List Token) :
    first.run c size (ts ++ us) s₀ = ⟨(stage.run c size us s).result,
      (stage.run c size us s).state, trace ++ (stage.run c size us s).trace⟩ := by
  induction h generalizing us with
  | start => rfl
  | snoc _ hu ih =>
      rw [List.append_assoc, List.singleton_append, ih, Stage.run, hu]
      simp only [List.append_assoc]

end Reads

/-- Running over tokens ends at one of them, or all of them have been read. -/
theorem Stage.run_cases (size : Nat) (ts : List Token) (first : Stage A L) (s₀ : σ) :
    (∃ before t after stage s trace result, ts = before ++ t :: after ∧
      Reads c first s₀ before stage s trace ∧ (stage.turn c t s).progress = .over result ∧
      first.run c size ts s₀ = ⟨result, (stage.turn c t s).state,
        trace ++ .token t :: (stage.turn c t s).trace⟩) ∨
    ∃ stage s trace, Reads c first s₀ ts stage s trace := by
  induction ts generalizing first s₀ with
  | nil => exact Or.inr ⟨first, s₀, [], .start⟩
  | cons t ts ih =>
      rw [Stage.run]
      rcases hp : (first.turn c t s₀).progress with next | result
      · rcases ih next (first.turn c t s₀).state with
          ⟨before, u, after, stage, s, trace, result, rfl, reads, ended, run⟩ |
          ⟨stage, s, trace, reads⟩
        · refine Or.inl ⟨t :: before, u, after, stage, s, _, result, rfl, reads.cons hp, ended, ?_⟩
          simp only [run]
          rw [List.append_assoc]
        · exact Or.inr ⟨stage, s, _, reads.cons hp⟩
      · refine Or.inl ⟨[], t, ts, first, s₀, [], result, rfl, .start, hp, ?_⟩
        rfl

/-- Every reading ends at some token of its source. -/
theorem read_endsAt (c : Compiler σ E A) (source : String) (s₀ : σ) :
    ∃ before t after, tokens source = before ++ t :: after ∧
      EndsAt c s₀ before t (read c source s₀) := by
  rcases Stage.run_cases (c := c) source.utf8ByteSize (tokens source) .opening s₀ with
    ⟨before, t, after, stage, s, trace, result, split, reads, ended, run⟩ |
    ⟨stage, s, trace, reads⟩
  · refine ⟨before, t, after, split, stage, s, trace, reads, ?_⟩
    rw [read, run]
    exact ⟨ended, rfl, rfl⟩
  · obtain ⟨t, ht, last⟩ := (isStream_tokens source).exists_last
    exact absurd last (Bool.not_eq_true _ ▸ reads.not_isLast t ht)

/-- What a reading comes to is settled by the tokens up to the one that ends it. -/
theorem EndsAt.read_eq {before after : List Token} {t : Token} {source : String}
    {o : Outcome σ E L (Written A L)} (h : EndsAt c s₀ before t o)
    (split : tokens source = before ++ t :: after) : read c source s₀ = o := by
  obtain ⟨stage, s, trace, reads, ended, state, told⟩ := h
  rw [read, split, reads.run_append, Stage.run, ended, ← state, ← told]

end FragmentGrammar
