import FragmentGrammar.Offence
import FragmentGrammar.Proofs.Lexer.Stream
import FragmentGrammar.Proofs.Resolver.Consult
import Mathlib.Data.List.Chain
import Mathlib.Tactic.MkIffOfInductiveProp

/-! # Sources without an offending token

    Nothing offends in a stream exactly when its tokens are in order and the compiler
    gives an automaton for every fragment (`firstOffence_eq_none_iff`).  The order is a
    matter of neighbouring kinds alone (`Orderly`); no token has to be remembered to
    check it. -/

namespace FragmentGrammar

/-- The error of a refusal. -/
def refusalOf {E R : Type} : Except E R → Option E
  | .error e => some e
  | .ok _ => none

variable {σ E A L : Type} [Automaton A L] [Label L]
variable {answers : List (String × Except E A)} {before ts : List Token} {t : Token}

/-- Every token is one, a name and an arrow come first, and an arrow comes directly behind
    a name wherever it comes. -/
@[mk_iff]
structure Orderly (ts : List Token) : Prop where
  known : ∀ t ∈ ts, t.kind ≠ .unknown
  opens : (ts.take 2).map (·.kind) = [.nonterminal, .arrow]
  chains : ts.IsChain fun t u => u.kind = .arrow → t.kind = .nonterminal

instance : DecidablePred Orderly :=
  fun ts => decidable_of_iff _ (orderly_iff ts).symm

/-- Tokens in order start with a name and an arrow. -/
theorem Orderly.exists_opening (h : Orderly ts) :
    ∃ first second rest, ts = first :: second :: rest ∧ first.kind = .nonterminal ∧
      second.kind = .arrow := by
  have opens := h.opens
  rcases ts with _ | ⟨first, _ | ⟨second, rest⟩⟩
  · simp at opens
  · simp at opens
  · obtain ⟨hf, hs⟩ : first.kind = .nonterminal ∧ second.kind = .arrow := by
      simpa using opens
    exact ⟨first, second, rest, rfl, hf, hs⟩

/-! ## One token -/

theorem exists_cons_cons (long : 2 ≤ before.length) :
    ∃ first second more, before = first :: second :: more := by
  rcases before with _ | ⟨first, _ | ⟨second, more⟩⟩
  · simp at long
  · simp at long
  · exact ⟨first, second, more, rfl⟩

theorem offence_of_unknown (h : t.kind = .unknown) :
    offence answers before t = some (.lexical ⟨t.source, t.span⟩) := by
  rw [offence.eq_def, if_pos h]

/-- The first token has to be a name. -/
theorem offence_first (h : t.kind ≠ .unknown) :
    offence answers [] t = if t.kind = .nonterminal then none
      else some (.syntactic (.expectedNonterminal t.kind t.source t.span)) := by
  rw [offence, if_neg h]

/-- The second token has to be an arrow. -/
theorem offence_second {first : Token} (h : t.kind ≠ .unknown) :
    offence answers [first] t = if t.kind = .arrow then none
      else some (.syntactic (.expectedArrow first.source t.kind t.source t.span)) := by
  rw [offence, if_neg h]

/-- Behind the first two tokens, names and bars are never out of place, and neither is the
    end of the text. -/
theorem offence_of_quiet (long : 2 ≤ before.length)
    (h : t.kind = .nonterminal ∨ t.kind = .bar ∨ t.kind = .stop) :
    offence answers before t = none := by
  obtain ⟨first, second, more, rfl⟩ := exists_cons_cons long
  rcases h with h | h | h <;> rw [offence, if_neg (by simp [h])] <;> simp only [h]

/-- A fragment is out of place just if the compiler refuses it. -/
theorem offence_of_fragment (long : 2 ≤ before.length) (h : t.kind = .fragment) :
    offence answers before t =
      ((answers.lookup t.source).bind refusalOf).map .fragment := by
  obtain ⟨first, second, more, rfl⟩ := exists_cons_cons long
  rw [offence, if_neg (by simp [h])]
  simp only [h]
  rcases answers.lookup t.source with _ | (e | a) <;> rfl

/-- Behind anything but a name, an arrow is refused for the missing body or for what stands
    there. -/
theorem offence_of_arrow {previous : Token} (long : 2 ≤ before.length)
    (last : before.getLast? = some previous) (h : t.kind = .arrow) :
    offence answers before t =
      if previous.kind = .nonterminal then none
      else if (sinceBreak before).all fun u =>
          u.kind = .fragment && vanishes answers u.source then
        some (.syntactic (.emptyChain t.span))
      else some (.syntactic (.chainFromOther previous.kind previous.source t.span)) := by
  obtain ⟨first, second, more, rfl⟩ := exists_cons_cons long
  have same : (second :: more).getLast (List.cons_ne_nil _ _) = previous := by
    rw [List.getLast?_cons_cons,
      List.getLast?_eq_getLast_of_ne_nil (List.cons_ne_nil _ _)] at last
    exact Option.some.inj last
  rw [offence, if_neg (by simp [h])]
  simp only [h, same]

theorem offence_first_eq_none : offence answers [] t = none ↔ t.kind = .nonterminal := by
  by_cases unknown : t.kind = .unknown
  · rw [offence_of_unknown unknown]
    simp [unknown]
  · rw [offence_first unknown]
    simp

theorem offence_second_eq_none {first : Token} :
    offence answers [first] t = none ↔ t.kind = .arrow := by
  by_cases unknown : t.kind = .unknown
  · rw [offence_of_unknown unknown]
    simp [unknown]
  · rw [offence_second unknown]
    simp

theorem offence_later_eq_none {previous : Token} (long : 2 ≤ before.length)
    (last : before.getLast? = some previous) :
    offence answers before t = none ↔ t.kind ≠ .unknown ∧
      (t.kind = .arrow → previous.kind = .nonterminal) ∧
      (t.kind = .fragment → ∀ e, answers.lookup t.source ≠ some (.error e)) := by
  cases hk : t.kind with
  | nonterminal => simp [offence_of_quiet long, hk]
  | bar => simp [offence_of_quiet long, hk]
  | stop => simp [offence_of_quiet long, hk]
  | unknown => simp [offence_of_unknown hk]
  | arrow =>
      rw [offence_of_arrow long last hk]
      by_cases hp : previous.kind = .nonterminal
      · simp [hp]
      · rw [if_neg hp]
        simp only [hp]
        split <;> simp
  | fragment =>
      rw [offence_of_fragment long hk]
      rcases answers.lookup t.source with _ | (e | a) <;> simp [refusalOf]

/-- Only a fragment behind the first two tokens is refused by the compiler. -/
theorem offence_ne_fragment (h : before.length < 2 ∨ t.kind ≠ .fragment) (e : E) :
    offence answers before t ≠ some (.fragment e) := by
  by_cases unknown : t.kind = .unknown
  · rw [offence_of_unknown unknown]
    simp
  · rcases before with _ | ⟨first, _ | ⟨second, more⟩⟩
    · rw [offence_first unknown]
      split <;> simp
    · rw [offence_second unknown]
      split <;> simp
    · have long : 2 ≤ (first :: second :: more).length := by simp
      have other : t.kind ≠ .fragment := by
        rcases h with short | other
        · omega
        · exact other
      have last := List.getLast?_eq_getLast_of_ne_nil (List.cons_ne_nil first (second :: more))
      cases hk : t.kind with
      | nonterminal => simp [offence_of_quiet long, hk]
      | bar => simp [offence_of_quiet long, hk]
      | stop => simp [offence_of_quiet long, hk]
      | unknown => exact absurd hk unknown
      | fragment => exact absurd hk other
      | arrow =>
          rw [offence_of_arrow long last hk]
          split
          next => simp
          next => split <;> simp

/-! ## All tokens -/

/-- Nothing offends when no token does. -/
theorem firstOffence_eq_none (before ts : List Token) :
    firstOffence answers before ts = none ↔
      ∀ pre t post, ts = pre ++ t :: post → offence answers (before ++ pre) t = none := by
  induction ts generalizing before with
  | nil =>
      constructor
      · intro _ pre t post h
        exact absurd h (by simp)
      · intro _
        rfl
  | cons u ts ih =>
      rw [firstOffence, Option.or_eq_none_iff, ih]
      constructor
      · rintro ⟨first, later⟩ pre t post h
        cases pre with
        | nil =>
            obtain ⟨rfl, rfl⟩ := List.cons.inj h
            rwa [List.append_nil]
        | cons v pre =>
            obtain ⟨rfl, rfl⟩ := List.cons.inj h
            rw [List.append_cons]
            exact later pre t post rfl
      · intro all
        constructor
        · have first := all [] u ts rfl
          rwa [List.append_nil] at first
        · intro pre t post h
          rw [List.append_assoc]
          exact all (u :: pre) t post (congrArg _ h)

/-- No token of a stream offends. -/
def Blameless (answers : List (String × Except E A)) (ts : List Token) : Prop :=
  ∀ pre t post, ts = pre ++ t :: post → offence answers pre t = none

namespace Blameless

/-- A stream in which nothing offends starts with a name and an arrow. -/
theorem exists_opening (h : Blameless answers ts) (stream : IsStream ts) :
    ∃ first second rest, ts = first :: second :: rest ∧ first.kind = .nonterminal ∧
      second.kind = .arrow := by
  cases stream with
  | @last t ht =>
      have first := offence_first_eq_none.mp (h [] t [] rfl)
      rw [first] at ht
      cases ht
  | @more first ts _ stream =>
      have hf := offence_first_eq_none.mp (h [] first ts rfl)
      cases stream with
      | @last t ht =>
          have second := offence_second_eq_none.mp (h [first] t [] rfl)
          rw [second] at ht
          cases ht
      | @more second rest _ _ =>
          exact ⟨first, second, rest, rfl, hf,
            offence_second_eq_none.mp (h [first] second rest rfl)⟩

/-- A stream without offences is in order. -/
theorem orderly (h : Blameless answers ts) (stream : IsStream ts) : Orderly ts := by
  obtain ⟨first, second, rest, split, hf, hs⟩ := h.exists_opening stream
  refine ⟨?_, ?_, ?_⟩
  · intro t ht unknown
    obtain ⟨pre, post, place⟩ := List.append_of_mem ht
    have offends := h pre t post place
    rw [offence_of_unknown unknown] at offends
    cases offends
  · rw [split]
    simp [hf, hs]
  · rw [List.isChain_iff_forall_rel_of_append_cons_cons]
    intro t u pre post place arrow
    cases pre with
    | nil =>
        obtain ⟨rfl, -⟩ := List.cons.inj (split.symm.trans place)
        exact hf
    | cons v pre =>
        rw [List.append_cons] at place
        have long : 2 ≤ (v :: pre ++ [t]).length := by simp
        have last : (v :: pre ++ [t]).getLast? = some t := List.getLast?_concat
        exact ((offence_later_eq_none long last).mp (h _ u post place)).2.1 arrow

/-- Where nothing offends, no answer is a failure. -/
theorem answered {c : Compiler σ E A} {s : σ}
    (h : Blameless (c.consult (fragmentsOf ts) s) ts) (stream : IsStream ts) :
    ∀ x ∈ c.consult (fragmentsOf ts) s, ∃ a, x.2 = .ok a := by
  intro x hx
  have asked : x.1 ∈ fragmentsOf ts := by
    rw [← map_fst_consult c s (fragmentsOf ts)]
    exact List.mem_map_of_mem hx
  -- some fragment behind the first two tokens has this text
  obtain ⟨t, ht, fragment, source⟩ := mem_fragmentsOf.mp asked
  obtain ⟨first, second, rest, split, -⟩ := h.exists_opening stream
  rw [split] at ht
  obtain ⟨pre, post, hrest⟩ := List.append_of_mem ht
  have place : ts = (first :: second :: pre) ++ t :: post := by
    rw [split]
    exact congrArg (first :: second :: ·) hrest
  have last := List.getLast?_eq_getLast_of_ne_nil (List.cons_ne_nil first (second :: pre))
  have quiet := (offence_later_eq_none (by simp) last).mp (h _ t post place)
  cases answer : x.2 with
  | ok a => exact ⟨a, rfl⟩
  | error e =>
      have found := lookup_of_mem_consult (nodup_fragmentsOf ts) hx
      rw [answer, ← source] at found
      exact absurd found (quiet.2.2 fragment e)

end Blameless

/-- A stream in order whose fragments all have automata is blameless. -/
theorem Orderly.blameless (h : Orderly ts) (ok : ∀ x ∈ answers, ∃ a, x.2 = .ok a) :
    Blameless answers ts := by
  intro pre t post place
  obtain ⟨first, second, rest, split, hf, hs⟩ := h.exists_opening
  have whole := split.symm.trans place
  rcases pre with _ | ⟨u, _ | ⟨v, pre⟩⟩
  · obtain ⟨rfl, -⟩ := List.cons.inj whole
    exact offence_first_eq_none.mpr hf
  · obtain ⟨rfl, tail⟩ := List.cons.inj whole
    obtain ⟨rfl, -⟩ := List.cons.inj tail
    exact offence_second_eq_none.mpr hs
  · have last := List.getLast?_eq_getLast_of_ne_nil (List.cons_ne_nil u (v :: pre))
    obtain ⟨init, hinit⟩ := List.getLast?_eq_some_iff.mp last
    refine (offence_later_eq_none (by simp) last).mpr ⟨?_, ?_, ?_⟩
    · exact h.known t (by simp [place])
    · rw [hinit, List.append_assoc] at place
      exact List.isChain_iff_forall_rel_of_append_cons_cons.mp h.chains place
    · intro _ e
      rw [lookup_eq_map_automataOf ok]
      simp

/-- Nothing offends in a stream exactly when it is in order and all its fragments are
    given automata. -/
theorem firstOffence_eq_none_iff {c : Compiler σ E A} {s : σ} (stream : IsStream ts) :
    firstOffence (c.consult (fragmentsOf ts) s) [] ts = none ↔
      Orderly ts ∧ ∀ x ∈ c.consult (fragmentsOf ts) s, ∃ a, x.2 = .ok a := by
  rw [firstOffence_eq_none]
  constructor
  · intro h
    have blameless : Blameless (c.consult (fragmentsOf ts) s) ts := h
    exact ⟨blameless.orderly stream, blameless.answered stream⟩
  · rintro ⟨orderly, ok⟩
    exact orderly.blameless ok

example : Orderly (tokens "S -> a T -> b | c") ∧ ¬Orderly (tokens "S -> a -> b") := by
  decide +kernel

end FragmentGrammar
