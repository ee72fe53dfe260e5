import FragmentGrammar.Automaton.Listed
import FragmentGrammar.Label.CaseBlind
import FragmentGrammar.Proofs.Automaton.Language
import FragmentGrammar.Proofs.Resolver.History

/-! # Failures leave no trace

    A resolver that is told an error passes it on and stays as it was.  So a history goes
    the same way without the calls that failed, as long as the compiler still answers the
    other ones as it did, and a text that failed is a new one when it comes again: the
    compiler is asked, and the number that it may get is the next one
    (`failures_leave_no_trace`). -/

namespace FragmentGrammar

variable {σ τ E A L : Type} [Automaton A L] [Label L]

/-- What the compiler was asked on these calls, with its answers. -/
def askedOn (calls : List (Call E A L)) : List (String × Except E A) :=
  calls.flatMap (·.asked)

/-- The calls that do not fail. -/
def successesOf (calls : List (Call E A L)) : List (Call E A L) :=
  calls.filter (·.answer.isOk)

/-- The compiler, in the state `s`, is asked about the text as if for the first time, and
    what it answers is learnt: an automaton that is embedded gets the next number. -/
structure ResolvesAnew (c : Compiler σ E A) (r : Resolver A L) (text : String) (s : σ) :
    Prop where
  asked : (r.resolve c.recorded text (s, [])).state.2 = [(text, (c text s).1)]
  fails {e : E} : (c text s).1 = .error e →
    (r.resolve c text s).answer = .error e ∧ (r.resolve c text s).resolver = r
  vanishes {a : A} : (c text s).1 = .ok a → (Verdict.of a : Verdict L) = .vanishes →
    (r.resolve c text s).answer = .ok none ∧
      (r.resolve c text s).resolver.recorded = r.recorded
  terminal {a : A} {l : L} : (c text s).1 = .ok a → Verdict.of a = .terminal l →
    (r.resolve c text s).answer = .ok (some (.terminal ⟨l, text⟩)) ∧
      (r.resolve c text s).resolver.recorded = r.recorded
  embeds {a : A} : (c text s).1 = .ok a → (Verdict.of a : Verdict L) = .embeds →
    (r.resolve c text s).answer = .ok (some (.nonterminal (.entry r.recorded.length))) ∧
      (r.resolve c text s).resolver.recorded = r.recorded ++ [(r.recorded.length, a)]

namespace Resolver

/-- Where the compiler fails, its error is the answer and nothing is learnt. -/
theorem resolve_of_asked_error {c : Compiler σ E A} {r : Resolver A L} {text : String} {s : σ}
    {e : E} (failed : (r.resolve c.recorded text (s, [])).state.2 = [(text, .error e)]) :
    (r.resolve c text s).answer = .error e ∧ (r.resolve c text s).resolver = r := by
  obtain ⟨answer, resolver, -⟩ := resolve_recorded c r text s
  rw [← answer, ← resolver]
  rcases resolve_cases c r text s with
    ⟨symbol, -, resolved⟩ | ⟨e', s', -, -, resolved⟩ | ⟨a, s', -, -, resolved⟩
  · rw [resolved] at failed
    cases failed
  · rw [resolved] at failed ⊢
    obtain ⟨rfl⟩ := failed
    exact ⟨rfl, rfl⟩
  · rw [resolved] at failed
    cases failed

/-- The first call, and then all others from where it leaves the resolver. -/
theorem callAll_cons {c : Compiler σ E A} {r r' : Resolver A L} {text : String} {s s' : σ}
    {answer : Except E (Option (Symbol L))} {asked : List (String × Except E A)}
    {trace : List (Event L)} (texts : List String)
    (resolved : r.resolve c.recorded text (s, []) = ⟨answer, r', (s', asked), trace⟩) :
    r.callAll c (text :: texts) s =
      (⟨text, asked, answer⟩ :: (r'.callAll c texts s').1, (r'.callAll c texts s').2) := by
  rw [callAll, resolved]

/-- Without the calls that fail, the others come to what they come to with them. -/
theorem callAll_successesOf (c : Compiler σ E A) (c' : Compiler τ E A) {r : Resolver A L}
    {texts : List String} {s : σ} {kept : List (Call E A L)}
    (only : kept = successesOf (r.callAll c texts s).1) (s' : τ)
    (same : c'.consult ((askedOn kept).map (·.1)) s' = askedOn kept) :
    (r.callAll c' (kept.map (·.text)) s').1 = kept ∧
      (r.callAll c' (kept.map (·.text)) s').2.1 = (r.callAll c texts s).2.1 := by
  induction texts generalizing r s s' kept with
  | nil =>
      subst only
      exact ⟨rfl, rfl⟩
  | cons text texts ih =>
      rcases resolve_cases c r text s with
        ⟨symbol, hk, resolved⟩ | ⟨e, s₁, -, -, resolved⟩ | ⟨a, s₁, hk, -, resolved⟩
      · rw [callAll_cons texts resolved] at only ⊢
        subst only
        obtain ⟨calls, resolver⟩ := ih rfl s' same
        have again : r.resolve c'.recorded text (s', []) = ⟨.ok symbol, r, (s', []), []⟩ :=
          resolve_of_known hk
        show (r.callAll c' (text :: _) s').1 = _ ∧ (r.callAll c' (text :: _) s').2.1 = _
        rw [callAll_cons _ again]
        exact ⟨congrArg _ calls, resolver⟩
      · rw [callAll_cons texts resolved] at only ⊢
        exact ih only s' same
      · rw [callAll_cons texts resolved] at only ⊢
        subst only
        obtain ⟨here, rest⟩ := List.cons.inj same
        obtain ⟨calls, resolver⟩ := ih rfl (c' text s').2 rest
        have answer : (c' text s').1 = .ok a := (Prod.mk.inj here).2
        have asked : c'.recorded text (s', []) = (.ok a, (c' text s').2, [(text, .ok a)]) := by
          rw [← answer]
          rfl
        have again := resolve_of_ok hk asked
        show (r.callAll c' (text :: _) s').1 = _ ∧ (r.callAll c' (text :: _) s').2.1 = _
        rw [callAll_cons _ again]
        exact ⟨congrArg _ calls, resolver⟩

/-- A text that is not in the memo is resolved anew. -/
theorem resolvesAnew {c : Compiler σ E A} {r : Resolver A L} {text : String}
    (unknown : r.memo.lookup text = none) (s : σ) : ResolvesAnew c r text s := by
  have asked : c.recorded text (s, []) = ((c text s).1, (c text s).2, [(text, (c text s).1)]) :=
    rfl
  have learnt {a : A} (ok : (c text s).1 = .ok a) : r.resolve c text s =
      ⟨.ok (r.learn text a).1, (r.learn text a).2.1, (c text s).2, [(r.learn text a).2.2]⟩ :=
    resolve_of_ok unknown (Prod.ext ok rfl)
  refine ⟨?_, ?_, ?_, ?_, ?_⟩
  · cases answer : (c text s).1 with
    | error e =>
        rw [answer] at asked
        rw [resolve_of_error unknown asked]
    | ok a =>
        rw [answer] at asked
        rw [resolve_of_ok unknown asked]
  · intro e failed
    rw [resolve_of_error unknown (Prod.ext failed rfl)]
    exact ⟨rfl, rfl⟩
  · intro a ok verdict
    rw [learnt ok, learn, verdict]
    exact ⟨rfl, rfl⟩
  · intro a l ok verdict
    rw [learnt ok, learn, verdict]
    exact ⟨rfl, rfl⟩
  · intro a ok verdict
    rw [learnt ok, learn, verdict]
    exact ⟨rfl, rfl⟩

end Resolver

/-- A text that failed is not known until it succeeds. -/
theorem RecallsAll.lookup_of_failed {known known' : List (String × A)}
    {before after : List (Call E A L)} {call : Call E A L} {e : E}
    (h : RecallsAll known (before ++ call :: after) known') (failed : call.answer = .error e)
    (since : ∀ x ∈ after, x.text = call.text → ∃ e', x.answer = .error e') :
    known'.lookup call.text = none := by
  obtain ⟨mid, -, back⟩ := h.exists_mid
  cases back with
  | @cons _ mid' _ _ _ recalls rest =>
      have unknown : mid'.lookup call.text = none := by
        cases recalls with
        | known _ => cases failed
        | failed hk => exact hk
        | new _ => cases failed
      cases hk : known'.lookup call.text with
      | none => rfl
      | some a =>
          obtain ⟨x, ⟨⟨symbol, success⟩, _, _, rfl, -⟩, named, -⟩ := rest.learns unknown hk
          obtain ⟨e', failed'⟩ := since x (by simp) named
          rw [failed'] at success
          cases success

/-- A call whose compiler fails answers its error and changes nothing.  Whatever else is
    resolved, the other calls and what is known in the end are the same without it.  When
    its text comes again, and has not succeeded since, it is resolved anew, so that it gets
    the next free number if it is then embedded. -/
theorem failures_leave_no_trace (c : Compiler σ E A) :
    (∀ (r : Resolver A L) (text : String) (s : σ) (e : E),
      (r.resolve c.recorded text (s, [])).state.2 = [(text, .error e)] →
      (r.resolve c text s).answer = .error e ∧ (r.resolve c text s).resolver = r) ∧
    ∀ (texts : List String) (s : σ),
      let run := (Resolver.empty : Resolver A L).callAll c texts s
      let kept := successesOf run.1
      (∀ {τ : Type} (c' : Compiler τ E A) (s' : τ),
        c'.consult ((askedOn kept).map (·.1)) s' = askedOn kept →
        ((Resolver.empty : Resolver A L).callAll c' (kept.map (·.text)) s').1 = kept ∧
          ((Resolver.empty : Resolver A L).callAll c' (kept.map (·.text)) s').2.1 = run.2.1) ∧
      run.2.1.recorded.map (·.1) = List.range run.2.1.recorded.length ∧
      ∀ (before after : List (Call E A L)) (call : Call E A L) (e : E),
        run.1 = before ++ call :: after → call.answer = .error e →
        (∀ x ∈ after, x.text = call.text → ∃ e', x.answer = .error e') →
        ∀ s', ResolvesAnew c run.2.1 call.text s' := by
  refine ⟨fun _ _ _ _ => Resolver.resolve_of_asked_error, ?_⟩
  intro texts s run kept
  obtain ⟨known', resolver, calls⟩ := Resolver.recallsAll_callAll (L := L) c texts [] s
  have resolver : run.2.1 = .knowing known' := resolver
  have calls : RecallsAll [] run.1 known' := calls
  refine ⟨fun c' s' => Resolver.callAll_successesOf c c' rfl s', ?_, ?_⟩
  · rw [resolver]
    exact map_fst_recorded known'
  · intro before after call e split failed since s'
    rw [split] at calls
    refine Resolver.resolvesAnew ?_ s'
    rw [resolver, lookup_memo_knowing, calls.lookup_of_failed failed since]
    rfl

/-- One state, in which no word ends. -/
def wordless : ListedAutomaton CaseBlind :=
  ⟨0, [0], [], []⟩

theorem verdict_wordless : Verdict.of wordless = .embeds := by
  have silent : Automaton.acceptsOnlyEpsilon wordless = false := by
    rw [← Bool.not_eq_true, Automaton.acceptsOnlyEpsilon_iff]
    intro empty
    obtain ⟨f, hf, -⟩ := (empty []).mpr rfl
    cases hf
  rw [Verdict.of, silent]
  rfl

/-- A compiler that fails when it is first asked about `b`. -/
def hesitant : Script String (ListedAutomaton CaseBlind) :=
  ⟨[("b", [.error "busy", .ok wordless])], fun _ => .ok wordless⟩

/-- The text that failed gets the number behind the one that did not, and without it the
    history is that of a compiler that does not fail. -/
theorem failures_leave_no_trace_hesitant :
    let run := (Resolver.empty : Resolver (ListedAutomaton CaseBlind) CaseBlind).callAll
      hesitant.compiler ["a", "b", "a"] []
    run.1.map (·.answer) = [.ok (some (.nonterminal (.entry 0))), .error "busy",
      .ok (some (.nonterminal (.entry 0)))] ∧
    ((Resolver.empty : Resolver (ListedAutomaton CaseBlind) CaseBlind).callAll
      (.ofFunction fun _ => (.ok wordless : Except String _)) ["a", "a"] ()).2.1 = run.2.1 ∧
    (run.2.1.resolve hesitant.compiler "b" run.2.2).answer =
      .ok (some (.nonterminal (.entry 1))) := by
  intro run
  have learnt : (Resolver.empty : Resolver (ListedAutomaton CaseBlind) CaseBlind).learn "a"
      wordless = (some (.nonterminal (.entry 0)),
        ⟨[("a", some (.nonterminal (.entry 0)))], [(0, wordless)]⟩, .recorded "a" 0) := by
    rw [Resolver.learn, verdict_wordless]
    rfl
  have asked : hesitant.compiler.recorded "a" ([], []) =
      (.ok wordless, ["a"], [("a", .ok wordless)]) := rfl
  have unknown : (Resolver.empty : Resolver (ListedAutomaton CaseBlind) CaseBlind).memo.lookup "a" =
      none := rfl
  have first := Resolver.resolve_of_ok unknown asked
  rw [learnt] at first
  have history : run = ([⟨"a", [("a", .ok wordless)], .ok (some (.nonterminal (.entry 0)))⟩,
      ⟨"b", [("b", .error "busy")], .error "busy"⟩,
      ⟨"a", [], .ok (some (.nonterminal (.entry 0)))⟩],
      ⟨[("a", some (.nonterminal (.entry 0)))], [(0, wordless)]⟩, ["a", "b"]) :=
    Resolver.callAll_cons _ first
  obtain ⟨-, traceless⟩ := failures_leave_no_trace (L := CaseBlind) hesitant.compiler
  obtain ⟨without, -, anew⟩ := traceless ["a", "b", "a"] []
  refine ⟨?_, ?_, ?_⟩
  · rw [history]
    rfl
  · have kept : (successesOf run.1).map (·.text) = ["a", "a"] := by
      rw [history]
      rfl
    have asked : askedOn (successesOf run.1) = [("a", .ok wordless)] := by
      rw [history]
      rfl
    rw [← kept]
    refine (without (.ofFunction fun _ => .ok wordless) () ?_).2
    show Compiler.consult _ ((askedOn (successesOf run.1)).map (·.1)) () = _
    rw [asked]
    rfl
  · have again := anew [⟨"a", [("a", .ok wordless)], .ok (some (.nonterminal (.entry 0)))⟩]
      [⟨"a", [], .ok (some (.nonterminal (.entry 0)))⟩] ⟨"b", [("b", .error "busy")], .error "busy"⟩
      "busy" (congrArg (·.1) history) rfl (by simp) run.2.2
    have ok : (hesitant.compiler "b" run.2.2).1 = .ok wordless := by
      rw [history]
      rfl
    have answer := (again.embeds ok verdict_wordless).1
    have count : run.2.1.recorded.length = 1 := by
      rw [history]
      rfl
    rw [← count]
    exact answer

end FragmentGrammar
