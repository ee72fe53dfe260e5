import FragmentGrammar.Proofs.Parser.Segmentation
import FragmentGrammar.Proofs.Resolver.ByText

/-! # What is written in a source, said all at once

    A stream that can be cut into rules is in order (`CutInto.orderly`), so where the
    compiler gives an automaton to every fragment, cutting the tokens of a source is all
    that there is to reading it (`read_of_cutInto`).  For a compiler that answers by the
    text this is a description of what is written that mentions neither a reader nor a
    resolver (`read_eq_ok_iff`). -/

namespace FragmentGrammar

variable {σ E A L : Type}

/-! ## Cut streams are in order -/

section Chain

variable {segment ts : List Token}

/-- An arrow comes directly behind a name. -/
def ArrowsChain (ts : List Token) : Prop :=
  ts.IsChain fun t u => u.kind = .arrow → t.kind = .nonterminal

theorem ArrowsChain.cons_of_ne {t u : Token} (h : ArrowsChain (u :: ts)) (hu : u.kind ≠ .arrow) :
    ArrowsChain (t :: u :: ts) :=
  List.isChain_cons_cons.mpr ⟨fun arrow => absurd arrow hu, h⟩

/-- Words in front of a stream leave its arrows in order. -/
theorem ArrowsChain.words_append (words : ∀ t ∈ segment, t.kind.isWord = true)
    (h : ∀ t, ArrowsChain (t :: ts)) (t : Token) : ArrowsChain (t :: (segment ++ ts)) := by
  induction segment generalizing t with
  | nil => exact h t
  | cons u segment ih =>
      have word := words u List.mem_cons_self
      refine ArrowsChain.cons_of_ne (ih (fun v hv => words v (List.mem_cons_of_mem _ hv)) u) ?_
      intro arrow
      rw [arrow] at word
      cases word

end Chain

namespace CutInto

variable {head : String} {ts : List Token} {rules : List Rule}

/-- Behind any token the arrows of a cut stream are in order. -/
theorem arrowsChain (h : CutInto head ts rules) (t : Token) : ArrowsChain (t :: ts) := by
  induction h generalizing t with
  | @last head segment stop words hs =>
      refine ArrowsChain.words_append words (fun t => ?_) t
      exact ArrowsChain.cons_of_ne (.singleton stop) (by simp [hs])
  | @bar head segment ts bar rules words hb _ ih =>
      refine ArrowsChain.words_append words (fun t => ?_) t
      exact ArrowsChain.cons_of_ne (ih bar) (by simp [hb])
  | @arrow head segment ts next arrow rules words hn ha _ ih =>
      refine ArrowsChain.words_append words (fun t => ?_) t
      refine ArrowsChain.cons_of_ne ?_ (by simp [hn])
      exact List.isChain_cons_cons.mpr ⟨fun _ => hn, ih arrow⟩

theorem ne_unknown_of_isWord {t : Token} (h : t.kind.isWord = true) : t.kind ≠ .unknown := by
  intro unknown
  rw [unknown] at h
  cases h

/-- Every token of a cut stream is one. -/
theorem known (h : CutInto head ts rules) : ∀ t ∈ ts, t.kind ≠ .unknown := by
  induction h with
  | last words hs =>
      intro t ht
      rcases List.mem_append.mp ht with word | end'
      · exact ne_unknown_of_isWord (words t word)
      · obtain rfl := List.mem_singleton.mp end'
        simp [hs]
  | bar words hb _ ih =>
      intro t ht
      rcases List.mem_append.mp ht with word | later
      · exact ne_unknown_of_isWord (words t word)
      · rcases List.mem_cons.mp later with rfl | later
        · simp [hb]
        · exact ih t later
  | arrow words hn ha _ ih =>
      intro t ht
      rcases List.mem_append.mp ht with word | later
      · exact ne_unknown_of_isWord (words t word)
      · rcases List.mem_cons.mp later with rfl | later
        · simp [hn]
        · rcases List.mem_cons.mp later with rfl | later
          · simp [ha]
          · exact ih t later

/-- A name, an arrow and a cut stream behind them are in order. -/
theorem orderly {first second : Token} (h : CutInto head ts rules)
    (hf : first.kind = .nonterminal) (hs : second.kind = .arrow) :
    Orderly (first :: second :: ts) where
  known := by
    intro t ht
    rcases List.mem_cons.mp ht with rfl | ht
    · simp [hf]
    · rcases List.mem_cons.mp ht with rfl | ht
      · simp [hs]
      · exact h.known t ht
  opens := by simp [hf, hs]
  chains := List.isChain_cons_cons.mpr ⟨fun _ => hf, h.arrowsChain second⟩

/-- The fragments of rules are among the fragments of the stream. -/
theorem mem_fragmentsOf {first second : Token} (h : CutInto head ts rules) {r : Rule}
    (hr : r ∈ rules) {text : String} (hm : .fragment text ∈ r.body) :
    text ∈ fragmentsOf (first :: second :: ts) := by
  obtain ⟨t, ht, fragment, named⟩ := h.exists_fragment hr hm
  exact FragmentGrammar.mem_fragmentsOf.mpr ⟨t, ht, fragment, named⟩

end CutInto

/-! ## Reading a cut stream -/

/-- A production depends on what the fragments of its rule leave. -/
theorem Rule.production_congr {meaning meaning' : String → Option (Symbol L)} {r : Rule}
    (h : ∀ text, .fragment text ∈ r.body → meaning text = meaning' text) :
    r.production meaning = r.production meaning' := by
  rw [Rule.production, Rule.production, List.filterMap_congr]
  rintro (name | text) hm
  · rfl
  · exact h text hm

variable [Automaton A L] [Label L]

/-- What is written in a source whose tokens are cut and whose fragments have automata. -/
theorem read_of_cutInto {c : Compiler σ E A} {source : String} {s : σ} {first second : Token}
    {rest : List Token} {rules : List Rule} (split : tokens source = first :: second :: rest)
    (hf : first.kind = .nonterminal) (hs : second.kind = .arrow)
    (cut : CutInto first.source rest rules)
    (ok : ∀ x ∈ c.consult (fragmentsOf (tokens source)) s, ∃ a, x.2 = .ok a) :
    (read c source s).result = .ok
      ⟨.named first.source,
        rules.map (Rule.production (symbolOf (c.automata (tokens source) s))),
        (Resolver.knowing (c.automata (tokens source) s) : Resolver A L).recorded⟩ := by
  have orderly : Orderly (tokens source) := by
    rw [split]
    exact cut.orderly hf hs
  obtain ⟨g, hg⟩ := exists_parse_ok (L := L) orderly ok
  obtain ⟨w, hw, -⟩ := parse_eq_ok_iff.mp hg
  obtain ⟨first', second', rest', rules', split', -, -, cut', start, productions⟩ := read_writes hw
  obtain ⟨-, recorded⟩ := read_consulted hw
  -- the tokens can be cut in one way only
  obtain ⟨rfl, tail⟩ := List.cons.inj (split.symm.trans split')
  obtain ⟨-, rfl⟩ := List.cons.inj tail
  obtain rfl : rules = rules' := cut.rulesOf_eq.symm.trans cut'.rulesOf_eq
  rw [hw, ← start, ← productions, ← recorded]

/-- The tokens `ts` write `w`, where a compiler answers by the text as `f` does: they are a
    name, an arrow and the rules that the productions are made of, every fragment has its
    automaton, and those that are embedded are numbered where they first occur. -/
def WrittenBy (f : String → Except E A) (ts : List Token) (w : Written A L) : Prop :=
  ∃ first second rest rules, ts = first :: second :: rest ∧
    first.kind = .nonterminal ∧ second.kind = .arrow ∧ CutInto first.source rest rules ∧
    (∀ text ∈ fragmentsOf ts, ∃ a, f text = .ok a) ∧
    w = ⟨.named first.source, rules.map (Rule.production (symbolBy f (embeddedBy f ts))),
      numberedBy f 0 (embeddedBy f ts)⟩

/-- What is written in a source, where a compiler answers by the text. -/
theorem read_eq_ok_iff {c : Compiler σ E A} {f : String → Except E A} (h : c.AnswersBy f)
    {source : String} {s : σ} {w : Written A L} :
    (read c source s).result = .ok w ↔ WrittenBy f (tokens source) w := by
  -- both sides say the same of each fragment of a cut stream
  have same {first second : Token} {rest : List Token} {rules : List Rule}
      (split : tokens source = first :: second :: rest) (cut : CutInto first.source rest rules) :
      rules.map (Rule.production (symbolOf (c.automata (tokens source) s))) =
        rules.map (Rule.production (symbolBy (L := L) f (embeddedBy f (tokens source)))) := by
    refine List.map_congr_left fun r hr => Rule.production_congr fun text hm => ?_
    rw [h.automata_eq]
    refine symbolOf_automataBy ?_
    rw [split]
    exact cut.mem_fragmentsOf hr hm
  have recorded : (Resolver.knowing (c.automata (tokens source) s) : Resolver A L).recorded =
      numberedBy f 0 (embeddedBy f (tokens source)) := by
    rw [h.automata_eq]
    exact recorded_knowing_automataBy f _
  constructor
  · intro hw
    obtain ⟨first, second, rest, rules, split, hf, hs, cut, start, productions⟩ := read_writes hw
    obtain ⟨⟨s', consulted⟩, learnt⟩ := read_consulted hw
    refine ⟨first, second, rest, rules, split, hf, hs, cut, ?_, ?_⟩
    · exact (h.consult_ok_iff _ s).mp consulted.automata
    · rw [← same split cut, ← recorded, ← start, ← productions, ← learnt]
  · rintro ⟨first, second, rest, rules, split, hf, hs, cut, answered, rfl⟩
    rw [read_of_cutInto split hf hs cut ((h.consult_ok_iff _ s).mpr answered), same split cut,
      recorded]

end FragmentGrammar
