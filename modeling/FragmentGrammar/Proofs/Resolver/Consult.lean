import FragmentGrammar.Proofs.FirstOccurrence
import FragmentGrammar.Proofs.Resolver.Answers
import Mathlib.Tactic.ByContra

/-! # Resolving in step with the answers of a compiler

    A reader asks the compiler when it meets a fragment for the first time.  Seen from
    the whole stream, the compiler answers the fragments in the order in which they first
    occur, and reading more tokens only adds answers at the end.  `Consulted` says that a
    resolver has come as far as a list of tokens; resolving the next fragment keeps it in
    step (`Consulted.resolve_ok`), or fails with the answer that the compiler gives there
    (`Consulted.resolve_error`). -/

namespace FragmentGrammar

variable {σ E A L : Type}

/-! ## Answers in order -/

section Consult

variable (c : Compiler σ E A) (s : σ)

/-- The first answers do not depend on what is asked later. -/
theorem consult_prefix (xs ys : List String) : c.consult xs s <+: c.consult (xs ++ ys) s := by
  induction xs generalizing s with
  | nil => exact List.nil_prefix
  | cons x xs ih => exact (List.prefix_cons_inj _).mpr (ih _)

/-- Every text is asked about once, in its order. -/
theorem map_fst_consult (texts : List String) : (c.consult texts s).map (·.1) = texts := by
  induction texts generalizing s with
  | nil => rfl
  | cons text texts ih => exact congrArg _ (ih _)

/-- A compiler that never fails answers with automata only. -/
theorem consult_ok {c : Compiler σ E A} (total : ∀ text s, ∃ a, (c text s).1 = .ok a)
    (texts : List String) (s : σ) : ∀ x ∈ c.consult texts s, ∃ a, x.2 = .ok a := by
  induction texts generalizing s with
  | nil =>
      intro x hx
      cases hx
  | cons text texts ih =>
      intro x hx
      rcases List.mem_cons.mp hx with rfl | later
      · exact total text s
      · exact ih _ x later

end Consult

/-! ## Fragments in order -/

section Fragments

variable {before ts : List Token} {t : Token}

/-- The texts of the fragments among tokens, in order. -/
def fragmentTexts (ts : List Token) : List String :=
  (ts.filter (·.kind = .fragment)).map (·.source)

theorem fragmentsOf_eq (ts : List Token) : fragmentsOf ts = (fragmentTexts (ts.drop 2)).eraseDups :=
  rfl

/-- The first two tokens of a source are no fragments of it. -/
theorem mem_fragmentsOf {text : String} :
    text ∈ fragmentsOf ts ↔ ∃ t ∈ ts.drop 2, t.kind = .fragment ∧ t.source = text := by
  simp [fragmentsOf, List.mem_eraseDups, and_assoc]

theorem fragmentTexts_append (ts us : List Token) :
    fragmentTexts (ts ++ us) = fragmentTexts ts ++ fragmentTexts us := by
  rw [fragmentTexts, List.filter_append, List.map_append]
  rfl

/-- Reading on only adds fragments behind those that were read. -/
theorem fragmentsOf_prefix (h : before <+: ts) : fragmentsOf before <+: fragmentsOf ts := by
  obtain ⟨after, rfl⟩ := h
  rw [fragmentsOf_eq, fragmentsOf_eq, List.drop_append, fragmentTexts_append,
    List.eraseDups_append]
  exact List.prefix_append ..

/-- Other tokens add no fragments. -/
theorem fragmentsOf_concat_of_ne (before : List Token) (h : t.kind ≠ .fragment) :
    fragmentsOf (before ++ [t]) = fragmentsOf before := by
  have none : fragmentTexts ([t].drop (2 - before.length)) = [] := by
    rcases Nat.lt_or_ge before.length 2 with short | long
    · rw [List.drop_eq_nil_of_le (by simp; omega)]
      rfl
    · rw [Nat.sub_eq_zero_of_le long]
      simp [fragmentTexts, h]
  rw [fragmentsOf_eq, fragmentsOf_eq, List.drop_append, fragmentTexts_append, none,
    List.append_nil]

/-- A fragment behind the first two tokens is asked about unless it was before. -/
theorem fragmentsOf_concat (h : t.kind = .fragment) (long : 2 ≤ before.length) :
    fragmentsOf (before ++ [t]) =
      fragmentsOf before ++ if t.source ∈ fragmentsOf before then [] else [t.source] := by
  have one : fragmentTexts ([t].drop (2 - before.length)) = [t.source] := by
    rw [Nat.sub_eq_zero_of_le long]
    simp [fragmentTexts, h]
  rw [fragmentsOf_eq, fragmentsOf_eq, List.drop_append, fragmentTexts_append, one,
    List.eraseDups_append]
  congr 1
  by_cases known : t.source ∈ fragmentTexts (before.drop 2) <;>
    simp [List.removeAll, List.mem_eraseDups, List.eraseDups_cons, known]

/-- No fragment counts among the first two tokens. -/
theorem fragmentsOf_of_short (h : ts.length ≤ 2) : fragmentsOf ts = [] := by
  rw [fragmentsOf, List.drop_eq_nil_of_le h]
  rfl

/-- A token asks for nothing unless it is a fragment behind the first two tokens. -/
theorem fragmentsOf_concat_of_quiet (h : before.length < 2 ∨ t.kind ≠ .fragment) :
    fragmentsOf (before ++ [t]) = fragmentsOf before := by
  rcases h with short | other
  · rw [fragmentsOf_of_short (Nat.le_of_lt short), fragmentsOf_of_short]
    rw [List.length_append]
    exact short
  · exact fragmentsOf_concat_of_ne before other

/-- No fragment is asked about twice. -/
theorem nodup_fragmentsOf (ts : List Token) : (fragmentsOf ts).Nodup :=
  nodup_eraseDups _

end Fragments

/-! ## Automata among the answers -/

section Automata

variable {answers more : List (String × Except E A)} {text : String} {a : A}

/-- Answers behind others add their automata behind the others. -/
theorem automataOf_append :
    automataOf (answers ++ more) = automataOf answers ++ automataOf more :=
  List.filterMap_append

/-- Where all answers are automata, no text is lost. -/
theorem map_fst_automataOf (ok : ∀ x ∈ answers, ∃ a, x.2 = .ok a) :
    (automataOf answers).map (·.1) = answers.map (·.1) := by
  induction answers with
  | nil => rfl
  | cons x answers ih =>
      obtain ⟨text, answer⟩ := x
      obtain ⟨a, rfl⟩ := ok _ List.mem_cons_self
      exact congrArg (text :: ·) (ih fun y hy => ok y (List.mem_cons_of_mem _ hy))

/-- Where all answers are automata, looking up loses nothing. -/
theorem lookup_eq_map_automataOf (ok : ∀ x ∈ answers, ∃ a, x.2 = .ok a) (text : String) :
    answers.lookup text = ((automataOf answers).lookup text).map .ok := by
  induction answers with
  | nil => rfl
  | cons x answers ih =>
      obtain ⟨text', answer⟩ := x
      obtain ⟨a, ha⟩ := ok _ List.mem_cons_self
      obtain rfl : answer = .ok a := ha
      have rest := ih fun y hy => ok y (List.mem_cons_of_mem _ hy)
      show List.lookup text ((text', .ok a) :: answers) =
        (List.lookup text ((text', a) :: automataOf answers)).map .ok
      rw [List.lookup_cons, List.lookup_cons]
      by_cases hx : (text == text') = true
      · rw [hx]
        rfl
      · rw [Bool.not_eq_true] at hx
        rw [hx]
        exact rest

/-- There is an answer for just the texts that were asked about. -/
theorem lookup_consult_eq_none_iff {c : Compiler σ E A} {texts : List String} {s : σ} :
    (c.consult texts s).lookup text = none ↔ text ∉ texts := by
  rw [List.lookup_eq_none_iff]
  constructor
  · intro h hmem
    rw [← map_fst_consult c s texts] at hmem
    obtain ⟨x, hx, rfl⟩ := List.mem_map.mp hmem
    exact absurd (h x hx) (by simp)
  · intro h x hx
    rw [bne_iff_ne]
    rintro rfl
    apply h
    rw [← map_fst_consult c s texts]
    exact List.mem_map_of_mem hx

/-- An answer of the compiler is found under its text. -/
theorem lookup_of_mem_consult {c : Compiler σ E A} {s : σ} {texts : List String}
    (nodup : texts.Nodup) {x : String × Except E A} (hx : x ∈ c.consult texts s) :
    (c.consult texts s).lookup x.1 = some x.2 := by
  have keys := map_fst_consult c s texts
  obtain ⟨l₁, l₂, split⟩ := List.append_of_mem hx
  rw [split, List.map_append, List.map_cons] at keys
  rw [← keys] at nodup
  rw [List.lookup_eq_some_iff]
  refine ⟨l₁, l₂, split, ?_⟩
  intro p hp
  rw [bne_iff_ne]
  intro same
  exact (List.nodup_append.mp nodup).2.2 p.1 (List.mem_map_of_mem hp) x.1 List.mem_cons_self
    same.symm

/-- Reading more tokens only adds automata at the end. -/
theorem automata_prefix {c : Compiler σ E A} {before ts : List Token} {s : σ}
    (h : before <+: ts) : c.automata before s <+: c.automata ts s := by
  obtain ⟨texts, hts⟩ := fragmentsOf_prefix h
  obtain ⟨answers, hanswers⟩ := consult_prefix c s (fragmentsOf before) texts
  rw [Compiler.automata, Compiler.automata, ← hts, ← hanswers, automataOf_append]
  exact List.prefix_append ..

/-- Reading more tokens does not change an answer. -/
theorem lookup_consult_of_prefix {c : Compiler σ E A} {before ts : List Token} {s : σ}
    (h : before <+: ts) {answer : Except E A}
    (found : (c.consult (fragmentsOf before) s).lookup text = some answer) :
    (c.consult (fragmentsOf ts) s).lookup text = some answer := by
  obtain ⟨texts, hts⟩ := fragmentsOf_prefix h
  obtain ⟨answers, hanswers⟩ := consult_prefix c s (fragmentsOf before) texts
  rw [← hts, ← hanswers, List.lookup_append, found]
  rfl

end Automata

variable [Automaton A L] [Label L]

/-- Fragments that are resolved one after the other leave what their automata say. -/
theorem resolveAll_knowing {c : Compiler σ E A} {known : List (String × A)} {texts : List String}
    {s : σ} (fresh : ∀ text ∈ texts, known.lookup text = none) (nodup : texts.Nodup)
    (ok : ∀ x ∈ c.consult texts s, ∃ a, x.2 = .ok a) :
    ((Resolver.knowing known : Resolver A L).resolveAll c texts s).1.map (·.1) =
      texts.map fun text => .ok (symbolOf (known ++ automataOf (c.consult texts s)) text) := by
  induction texts generalizing known s with
  | nil => rfl
  | cons text texts ih =>
      obtain ⟨absent, nodup⟩ := List.nodup_cons.mp nodup
      have new := fresh text List.mem_cons_self
      cases hc : c text s with
      | mk answer s' =>
          have consulted : c.consult (text :: texts) s =
              (text, answer) :: c.consult texts s' := by
            rw [Compiler.consult, hc]
          rw [consulted] at ok ⊢
          obtain ⟨a, ha⟩ := ok _ List.mem_cons_self
          obtain rfl : answer = .ok a := ha
          have resolved := Resolver.resolve_knowing_of_ok (L := L) new hc
          have fresh' : ∀ text' ∈ texts, (known ++ [(text, a)]).lookup text' = none := by
            intro text' h'
            refine lookup_concat_of_ne (fresh text' (List.mem_cons_of_mem _ h')) ?_ a
            rintro rfl
            exact absent h'
          -- what the first text taught is known to the others
          have tail := ih fresh' nodup fun x hx => ok x (List.mem_cons_of_mem _ hx)
          have whole : known ++ automataOf ((text, .ok a) :: c.consult texts s') =
              known ++ [(text, a)] ++ automataOf (c.consult texts s') := by
            rw [List.append_assoc]
            rfl
          rw [whole, Resolver.resolveAll, resolved, List.map_cons, List.map_cons,
            symbolOf_append (lookup_concat_self new a), tail]

/-- What a fragment leaves is settled where it is first met. -/
theorem symbolOf_automata {c : Compiler σ E A} {s₀ : σ} {before ts : List Token}
    {text : String} {a : A} (h : before <+: ts)
    (known : (c.automata before s₀).lookup text = some a) :
    symbolOf (c.automata before s₀) text = symbolOf (L := L) (c.automata ts s₀) text := by
  obtain ⟨more, whole⟩ := automata_prefix (c := c) (s := s₀) h
  rw [← whole, symbolOf_append known]

/-! ## Keeping in step -/

/-- The compiler has answered every fragment of `before` with an automaton, which are what
    the resolver knows, and goes on from the state `s`. -/
structure Consulted (c : Compiler σ E A) (s₀ : σ) (before : List Token) (r : Resolver A L)
    (s : σ) : Prop where
  goesOn : ∀ texts, c.consult (fragmentsOf before ++ texts) s₀ =
    c.consult (fragmentsOf before) s₀ ++ c.consult texts s
  automata : ∀ x ∈ c.consult (fragmentsOf before) s₀, ∃ a, x.2 = .ok a
  resolver : r = .knowing (c.automata before s₀)

namespace Consulted

variable {c : Compiler σ E A} {s₀ s s' : σ} {before ts : List Token} {r : Resolver A L}
variable {t : Token}

/-- Before the first fragment nothing has been asked. -/
theorem start (before : List Token) (h : fragmentsOf before = []) :
    Consulted c s₀ before (Resolver.empty : Resolver A L) s₀ where
  goesOn texts := by rw [h]; rfl
  automata := by
    rw [h]
    intro x hx
    cases hx
  resolver := by rw [Compiler.automata, h]; rfl

/-- A text that was asked about got an automaton, or reading would have stopped there. -/
theorem lookup (h : Consulted c s₀ before r s) (text : String) :
    (c.consult (fragmentsOf before) s₀).lookup text =
      ((c.automata before s₀).lookup text).map .ok :=
  lookup_eq_map_automataOf h.automata text

/-- The automata that are known are those of the fragments, in order. -/
theorem map_fst_automata (h : Consulted c s₀ before r s) :
    (c.automata before s₀).map (·.1) = fragmentsOf before :=
  (map_fst_automataOf h.automata).trans (map_fst_consult c s₀ _)

/-- A fragment is new just if no automaton is known for it. -/
theorem lookup_eq_none_iff (h : Consulted c s₀ before r s) {text : String} :
    (c.automata before s₀).lookup text = none ↔ text ∉ fragmentsOf before := by
  rw [← lookup_consult_eq_none_iff (c := c) (s := s₀), h.lookup, Option.map_eq_none_iff]

/-- A token that is no fragment asks for nothing. -/
theorem of_ne (h : Consulted c s₀ before r s) (ht : t.kind ≠ .fragment) :
    Consulted c s₀ (before ++ [t]) r s := by
  have same := fragmentsOf_concat_of_ne before ht
  refine ⟨?_, ?_, ?_⟩
  · rw [same]
    exact h.goesOn
  · rw [same]
    exact h.automata
  · rw [Compiler.automata, same]
    exact h.resolver

/-- A fragment that was met before asks for nothing. -/
theorem of_mem (h : Consulted c s₀ before r s) (ht : t.kind = .fragment)
    (long : 2 ≤ before.length) (old : t.source ∈ fragmentsOf before) :
    c.automata (before ++ [t]) s₀ = c.automata before s₀ ∧
      Consulted c s₀ (before ++ [t]) r s := by
  have same : fragmentsOf (before ++ [t]) = fragmentsOf before := by
    rw [fragmentsOf_concat ht long, if_pos old, List.append_nil]
  have automata : c.automata (before ++ [t]) s₀ = c.automata before s₀ := by
    rw [Compiler.automata, same]
    rfl
  refine ⟨automata, ?_, ?_, automata ▸ h.resolver⟩
  · rw [same]
    exact h.goesOn
  · rw [same]
    exact h.automata

/-- The answer to a fragment that was not met before comes behind the others. -/
theorem consult_concat (h : Consulted c s₀ before r s) (ht : t.kind = .fragment)
    (long : 2 ≤ before.length) (new : t.source ∉ fragmentsOf before) (texts : List String) :
    c.consult (fragmentsOf (before ++ [t]) ++ texts) s₀ =
      c.consult (fragmentsOf before) s₀ ++
        (t.source, (c t.source s).1) :: c.consult texts (c t.source s).2 := by
  rw [fragmentsOf_concat ht long, if_neg new, List.append_assoc, h.goesOn]
  rfl

/-- A new fragment is asked about next, and its answer is the next one. -/
theorem of_new (h : Consulted c s₀ before r s) (ht : t.kind = .fragment)
    (long : 2 ≤ before.length) (new : t.source ∉ fragmentsOf before) {a : A}
    (hc : c t.source s = (.ok a, s')) :
    c.automata (before ++ [t]) s₀ = c.automata before s₀ ++ [(t.source, a)] ∧
      Consulted c s₀ (before ++ [t]) (.knowing (c.automata (before ++ [t]) s₀) : Resolver A L)
        s' := by
  have grown := h.consult_concat ht long new
  rw [hc] at grown
  have whole := grown []
  rw [List.append_nil] at whole
  refine ⟨?_, ?_, ?_, rfl⟩
  · rw [Compiler.automata, whole, automataOf_append]
    rfl
  · intro texts
    rw [grown texts, whole, List.append_assoc]
    rfl
  · rw [whole]
    intro x hx
    rcases List.mem_append.mp hx with old | new
    · exact h.automata x old
    · obtain rfl := List.mem_singleton.mp new
      exact ⟨a, rfl⟩

/-- A fragment that is resolved leaves what its automaton says, and the resolver stays in
    step. -/
theorem resolve_ok (h : Consulted c s₀ before r s) (ht : t.kind = .fragment)
    (long : 2 ≤ before.length) {symbol : Option (Symbol L)}
    (hr : (r.resolve c t.source s).answer = .ok symbol) :
    Consulted c s₀ (before ++ [t]) (r.resolve c t.source s).resolver
        (r.resolve c t.source s).state ∧
      ∃ a, (c.automata (before ++ [t]) s₀).lookup t.source = some a ∧
        symbol = symbolOf (c.automata (before ++ [t]) s₀) t.source := by
  rw [h.resolver] at hr ⊢
  -- a text that was met before is known, and the compiler is not asked
  cases hk : (c.automata before s₀).lookup t.source with
  | some a =>
      have old : t.source ∈ fragmentsOf before := by
        by_contra new
        rw [h.lookup_eq_none_iff.mpr new] at hk
        cases hk
      obtain ⟨same, step⟩ := h.of_mem ht long old
      rw [Resolver.resolve_knowing_of_known hk] at hr ⊢
      rw [same]
      exact ⟨h.resolver ▸ step, a, hk, (Except.ok.inj hr).symm⟩
  | none =>
      have new := h.lookup_eq_none_iff.mp hk
      cases hc : c t.source s with
      | mk answer s' =>
          cases answer with
          | error e =>
              rw [Resolver.resolve_knowing_of_error hk hc] at hr
              cases hr
          | ok a =>
              have resolved := Resolver.resolve_knowing_of_ok (L := L) hk hc
              obtain ⟨grown, step⟩ := h.of_new ht long new hc
              rw [resolved] at hr ⊢
              rw [← grown] at hr ⊢
              exact ⟨step, a, grown ▸ lookup_concat_self hk a, (Except.ok.inj hr).symm⟩

/-- A fragment that is not resolved is one that the compiler refuses where it first
    occurs. -/
theorem resolve_error (h : Consulted c s₀ before r s) (ht : t.kind = .fragment)
    (long : 2 ≤ before.length) {e : E} (hr : (r.resolve c t.source s).answer = .error e) :
    (c.consult (fragmentsOf (before ++ [t])) s₀).lookup t.source = some (.error e) := by
  rw [h.resolver] at hr
  cases hk : (c.automata before s₀).lookup t.source with
  | some a =>
      rw [Resolver.resolve_knowing_of_known hk] at hr
      cases hr
  | none =>
      have new := h.lookup_eq_none_iff.mp hk
      cases hc : c t.source s with
      | mk answer s' =>
          cases answer with
          | error e' =>
              rw [Resolver.resolve_knowing_of_error hk hc] at hr
              obtain rfl := Except.error.inj hr
              have whole := h.consult_concat ht long new []
              rw [List.append_nil, hc] at whole
              rw [whole, List.lookup_append, h.lookup, hk]
              simp
          | ok a =>
              have resolved := Resolver.resolve_knowing_of_ok (L := L) hk hc
              rw [resolved] at hr
              cases hr

/-- Every fragment that was read has its automaton. -/
theorem exists_lookup (h : Consulted c s₀ before r s) {text : String}
    (asked : text ∈ fragmentsOf before) :
    ∃ a, (c.automata before s₀).lookup text = some a := by
  cases hk : (c.automata before s₀).lookup text with
  | some a => exact ⟨a, rfl⟩
  | none => exact absurd asked (h.lookup_eq_none_iff.mp hk)

/-- A fragment that has its automaton vanishes exactly when it leaves nothing. -/
theorem vanishes_iff (h : Consulted c s₀ before r s) (within : before <+: ts) {text : String}
    (asked : text ∈ fragmentsOf before) :
    vanishes (c.consult (fragmentsOf ts) s₀) text = true ↔
      symbolOf (L := L) (c.automata ts s₀) text = none := by
  obtain ⟨a, known⟩ := h.exists_lookup asked
  have answered : (c.consult (fragmentsOf ts) s₀).lookup text = some (.ok a) := by
    refine lookup_consult_of_prefix within ?_
    rw [h.lookup, known]
    rfl
  rw [← symbolOf_automata within known, symbolOf_eq_none_iff known, vanishes, answered]

end Consulted

end FragmentGrammar
