import FragmentGrammar.Grammar.Relabel
import FragmentGrammar.Resolver

/-! # Resolving mapped automata

    A resolver goes by the verdicts on automata and looks at nothing else.  So where every
    automaton is replaced by one with the same verdict, up to the label of a terminal,
    every call leaves what it would have left, with its label replaced
    (`Resolver.resolve_map`). -/

namespace FragmentGrammar

variable {σ σ' E A B L M : Type}

/-- The verdict with `h` applied to its label, if it has one. -/
def Verdict.relabel (h : L → M) : Verdict L → Verdict M
  | .vanishes => .vanishes
  | .terminal l => .terminal (h l)
  | .embeds => .embeds

@[simp] theorem Verdict.relabel_id : (Verdict.relabel id : Verdict L → Verdict L) = id := by
  funext v
  cases v <;> rfl

/-- What is known once labels are mapped by `h` and automata by `f`. -/
def Resolver.map (h : L → M) (f : A → B) (r : Resolver A L) : Resolver B M :=
  ⟨r.memo.map fun x => (x.1, x.2.map (Symbol.relabel h)), r.recorded.map fun x => (x.1, f x.2)⟩

/-- What is remembered is relabelled symbol by symbol. -/
theorem lookup_memo_map (h : L → M) (f : A → B) (r : Resolver A L) (text : String) :
    (r.map h f).memo.lookup text = (r.memo.lookup text).map (Option.map (Symbol.relabel h)) := by
  show (r.memo.map fun x => (x.1, x.2.map (Symbol.relabel h))).lookup text = _
  induction r.memo with
  | nil => rfl
  | cons x memo ih =>
      rw [List.map_cons, List.lookup_cons, List.lookup_cons]
      cases text == x.1 with
      | true => rfl
      | false => exact ih

variable [Automaton A L] [Label L] [Automaton B M] [Label M]

/-- An automaton that stays as it is keeps its verdict. -/
theorem Verdict.of_id (a : A) : Verdict.of (id a) = (Verdict.of a : Verdict L).relabel id := by
  rw [Verdict.relabel_id]
  rfl

/-- A mapped automaton with the mapped verdict is learnt as the automaton is. -/
theorem Resolver.learn_map {h : L → M} {f : A → B} {a : A}
    (verdict : Verdict.of (f a) = (Verdict.of a).relabel h) (r : Resolver A L) (text : String) :
    ((r.map h f).learn text (f a)).1 = (r.learn text a).1.map (Symbol.relabel h) ∧
      ((r.map h f).learn text (f a)).2.1 = (r.learn text a).2.1.map h f := by
  rw [Resolver.learn, Resolver.learn, verdict]
  cases Verdict.of a with
  | vanishes => simp [Verdict.relabel, Resolver.map]
  | terminal l => simp [Verdict.relabel, Resolver.map, Terminal.relabel]
  | embeds => simp [Verdict.relabel, Resolver.map]

/-- A compiler that gives mapped automata, with the mapped verdicts, is asked the same, and
    what it leaves is mapped. -/
theorem Resolver.resolve_map {c : Compiler σ E A} {c' : Compiler σ' E B} {h : L → M} {f : A → B}
    {θ : σ → σ'} (verdict : ∀ a, Verdict.of (f a) = (Verdict.of a).relabel h)
    (asked : ∀ text s, c' text (θ s) = ((c text s).1.map f, θ (c text s).2))
    (r : Resolver A L) (text : String) (s : σ) :
    ((r.map h f).resolve c' text (θ s)).answer =
        (r.resolve c text s).answer.map (Option.map (Symbol.relabel h)) ∧
      ((r.map h f).resolve c' text (θ s)).resolver = (r.resolve c text s).resolver.map h f ∧
      ((r.map h f).resolve c' text (θ s)).state = θ (r.resolve c text s).state := by
  have memo := lookup_memo_map h f r text
  cases known : r.memo.lookup text with
  | some symbol =>
      rw [known] at memo
      rw [Resolver.resolve_of_known known, Resolver.resolve_of_known memo]
      exact ⟨rfl, rfl, rfl⟩
  | none =>
      rw [known] at memo
      have answers := asked text s
      cases hc : c text s with
      | mk answer s' =>
          rw [hc] at answers
          cases answer with
          | error e =>
              rw [Resolver.resolve_of_error known hc, Resolver.resolve_of_error memo answers]
              exact ⟨rfl, rfl, rfl⟩
          | ok a =>
              obtain ⟨symbol, resolver⟩ := Resolver.learn_map (verdict a) r text
              rw [Resolver.resolve_of_ok known hc, Resolver.resolve_of_ok memo answers, symbol,
                resolver]
              exact ⟨rfl, rfl, rfl⟩

end FragmentGrammar
