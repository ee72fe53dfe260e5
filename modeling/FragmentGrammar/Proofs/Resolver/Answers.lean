import FragmentGrammar.Automaton.Listed
import FragmentGrammar.Offence
import FragmentGrammar.Resolver

/-! # What the answers of a compiler make of fragments

    A resolver learns about one fragment after the other.  Said all at once, from the
    automata that a compiler gave to the texts it was asked about: a fragment leaves what
    its own automaton is judged to be, and the automata that are judged neither to vanish
    nor to be terminals are numbered in the order in which they were given
    (`symbolOf`, `embeddedOf`).  Resolving keeps a resolver equal to the one that these
    two describe (`Resolver.resolve_knowing_of_ok` and its companions). -/

namespace FragmentGrammar

variable {σ E A L : Type} [Automaton A L] [Label L]

/-! ## Fragments, judged all at once -/

/-- The automata among the answers of a compiler, each with the text that it answers. -/
def automataOf (answers : List (String × Except E A)) : List (String × A) :=
  answers.filterMap fun x => x.2.toOption.map (x.1, ·)

/-- The answers to the fragments of a token stream that are automata. -/
def Compiler.automata (c : Compiler σ E A) (ts : List Token) (s : σ) : List (String × A) :=
  automataOf (c.consult (fragmentsOf ts) s)

/-- The verdict is that the automaton is embedded. -/
def Verdict.isEmbeds : Verdict L → Bool
  | embeds => true
  | _ => false

/-- What is told about a fragment of which the verdict was passed, when `id` is the next
    free number. -/
def Verdict.event (text : String) (id : Nat) : Verdict L → Event L
  | vanishes => .vanished text
  | terminal _ => .terminal text
  | embeds => .recorded text id

/-- The automata that are embedded, in the order of their numbers. -/
def embeddedOf (known : List (String × A)) : List (String × A) :=
  known.filter fun x => (Verdict.of x.2).isEmbeds

/-- The symbol that a fragment leaves, if any, when the automata of fragments are known. -/
def symbolOf (known : List (String × A)) (text : String) : Option (Symbol L) :=
  match known.lookup text with
  | none => none
  | some a =>
    match Verdict.of a with
    | .vanishes => none
    | .terminal l => some (.terminal ⟨l, text⟩)
    | .embeds => some (.nonterminal (.entry ((embeddedOf known).findIdx (·.1 = text))))

/-- The resolver that has learnt these automata in this order. -/
def Resolver.knowing (known : List (String × A)) : Resolver A L :=
  ⟨known.map fun x => (x.1, symbolOf known x.1),
    (embeddedOf known).zipIdx.map fun x => (x.2, x.1.2)⟩

/-! ## Verdicts -/

namespace Verdict

variable {a : A} {l : L}

/-- To vanish is to accept only the empty word. -/
theorem of_eq_vanishes_iff :
    Verdict.of a = (.vanishes : Verdict L) ↔ Automaton.acceptsOnlyEpsilon a = true := by
  rw [Verdict.of]
  split
  next h => simp [h]
  next h => split <;> simp [h]

/-- A terminal has the label of the only move. -/
theorem of_eq_terminal (h : Verdict.of a = .terminal l) :
    Automaton.singleTerminal a = some l := by
  rw [Verdict.of] at h
  split at h
  next => cases h
  next =>
    split at h
    next m hm =>
      obtain rfl := Verdict.terminal.inj h
      exact hm
    next => cases h

/-- A single move between two states is a terminal. -/
theorem of_letter (reads : Label.isEpsilon l = false) :
    Verdict.of (⟨0, [0, 1], [1], [⟨0, 1, l⟩]⟩ : ListedAutomaton L) = .terminal l := by
  have read : (⟨0, 1, l⟩ : Move L).isEpsilon = false := reads
  simp [Verdict.of, Automaton.acceptsOnlyEpsilon, Automaton.acceptsEmpty, Automaton.silentEdges,
    Automaton.singleTerminal, Automaton.soleLabel, closure, explore, fresh, successors, read,
    Move.isLoop]

/-- A loop on the only state accepts more than one word. -/
theorem of_loop (reads : Label.isEpsilon l = false) :
    Verdict.of (⟨0, [0], [0], [⟨0, 0, l⟩]⟩ : ListedAutomaton L) = .embeds := by
  have read : (⟨0, 0, l⟩ : Move L).isEpsilon = false := reads
  simp [Verdict.of, Automaton.acceptsOnlyEpsilon, Automaton.readsSomething, Automaton.edges,
    Automaton.backEdges, Automaton.singleTerminal, Automaton.soleLabel, closure, explore, fresh,
    successors, read]

/-- A final state without moves accepts the empty word alone. -/
theorem of_still : Verdict.of (⟨0, [0], [0], []⟩ : ListedAutomaton L) = .vanishes := by
  simp [Verdict.of, Automaton.acceptsOnlyEpsilon, Automaton.acceptsEmpty, Automaton.silentEdges,
    Automaton.readsSomething, closure, explore, fresh, successors]

end Verdict

/-! ## What a known fragment leaves -/

section Known

variable {known more : List (String × A)} {text : String} {a : A} {l : L}

/-- A fragment that vanishes leaves no symbol. -/
theorem symbolOf_of_vanishes (h : known.lookup text = some a) (hv : Verdict.of a = .vanishes) :
    symbolOf known text = none := by
  simp [symbolOf, h, hv]

/-- A terminal is shown by the text of its fragment. -/
theorem symbolOf_of_terminal (h : known.lookup text = some a)
    (hv : Verdict.of a = .terminal l) : symbolOf known text = some (.terminal ⟨l, text⟩) := by
  simp [symbolOf, h, hv]

/-- An embedded automaton is called by its place among the embedded ones. -/
theorem symbolOf_of_embeds (h : known.lookup text = some a) (hv : Verdict.of a = .embeds) :
    symbolOf known text =
      some (.nonterminal (.entry ((embeddedOf known).findIdx (·.1 = text)))) := by
  simp [symbolOf, h, hv]

/-- A known fragment leaves nothing exactly when its automaton accepts only the empty
    word. -/
theorem symbolOf_eq_none_iff (h : known.lookup text = some a) :
    symbolOf known text = none ↔ Automaton.acceptsOnlyEpsilon a = true := by
  rw [← Verdict.of_eq_vanishes_iff]
  cases hv : Verdict.of a with
  | vanishes => simp [symbolOf_of_vanishes h hv]
  | terminal l => simp [symbolOf_of_terminal h hv]
  | embeds => simp [symbolOf_of_embeds h hv]

/-- A known fragment leaves a terminal exactly when its automaton is judged to be one. -/
theorem symbolOf_eq_terminal_iff {t : Terminal L} (h : known.lookup text = some a) :
    symbolOf known text = some (.terminal t) ↔ ∃ l, Verdict.of a = .terminal l ∧ t = ⟨l, text⟩ := by
  cases hv : Verdict.of a with
  | vanishes => simp [symbolOf_of_vanishes h hv]
  | terminal l => simp [symbolOf_of_terminal h hv, eq_comm]
  | embeds => simp [symbolOf_of_embeds h hv]

/-- An automaton that is found and judged to be embedded is in the list. -/
theorem mem_embeddedOf_of_lookup (h : known.lookup text = some a) (hv : Verdict.of a = .embeds) :
    (text, a) ∈ embeddedOf known := by
  obtain ⟨l₁, l₂, rfl, -⟩ := List.lookup_eq_some_iff.mp h
  refine List.mem_filter.mpr ⟨by simp, ?_⟩
  rw [hv]
  rfl

theorem embeddedOf_append (known more : List (String × A)) :
    embeddedOf (known ++ more) = embeddedOf known ++ embeddedOf more :=
  List.filter_append ..

/-- A known fragment leaves the same, whatever is learnt later. -/
theorem symbolOf_append (h : known.lookup text = some a) :
    symbolOf (known ++ more) text = symbolOf known text := by
  have h' : (known ++ more).lookup text = some a := by
    rw [List.lookup_append, h]
    rfl
  cases hv : Verdict.of a with
  | vanishes => rw [symbolOf_of_vanishes h hv, symbolOf_of_vanishes h' hv]
  | terminal l => rw [symbolOf_of_terminal h hv, symbolOf_of_terminal h' hv]
  | embeds =>
      have found := List.findIdx_lt_length_of_exists (p := fun x => x.1 = text)
        ⟨_, mem_embeddedOf_of_lookup h hv, by simp⟩
      rw [symbolOf_of_embeds h hv, symbolOf_of_embeds h' hv, embeddedOf_append,
        List.findIdx_append, if_pos found]

/-- An embedded automaton takes the place behind those given before it. -/
theorem embeddedOf_append_cons (before after : List (String × A))
    (hv : (Verdict.of a : Verdict L) = .embeds) :
    embeddedOf (before ++ (text, a) :: after) =
      embeddedOf before ++ (text, a) :: embeddedOf after := by
  rw [embeddedOf_append]
  simp [embeddedOf, hv, Verdict.isEmbeds]

/-- The number of an automaton is how many were embedded before it. -/
theorem findIdx_embeddedOf {before : List (String × A)} (new : ∀ x ∈ before, text ≠ x.1)
    (after : List (String × A)) (hv : (Verdict.of a : Verdict L) = .embeds) :
    (embeddedOf (before ++ (text, a) :: after)).findIdx (·.1 = text) =
      (embeddedOf before).length := by
  have past : (embeddedOf before).findIdx (·.1 = text) = (embeddedOf before).length := by
    rw [List.findIdx_eq_length]
    intro x hx
    simpa using (new x (List.mem_filter.mp hx).1).symm
  rw [embeddedOf_append_cons before after hv, List.findIdx_append, past,
    if_neg (Nat.lt_irrefl _), List.findIdx_cons]
  simp

/-- The number of a fragment that is embedded leads to its automaton. -/
theorem mem_recorded_of_lookup (h : known.lookup text = some a)
    (hv : (Verdict.of a : Verdict L) = .embeds) :
    ((embeddedOf known).findIdx (·.1 = text), a) ∈
      (Resolver.knowing known : Resolver A L).recorded := by
  obtain ⟨before, after, rfl, new⟩ := List.lookup_eq_some_iff.mp h
  rw [findIdx_embeddedOf (fun x hx => bne_iff_ne.mp (new x hx)) after hv, Resolver.knowing,
    embeddedOf_append_cons before after hv]
  refine List.mem_map.mpr ⟨((text, a), (embeddedOf before).length), ?_, rfl⟩
  rw [List.mem_zipIdx_iff_getElem?]
  simp

/-- No number is given twice. -/
theorem eq_of_mem_recorded {r r' : Nat × A}
    (h : r ∈ (Resolver.knowing known : Resolver A L).recorded)
    (h' : r' ∈ (Resolver.knowing known : Resolver A L).recorded) (same : r'.1 = r.1) : r' = r := by
  obtain ⟨x, hx, rfl⟩ := List.mem_map.mp h
  obtain ⟨x', hx', rfl⟩ := List.mem_map.mp h'
  rw [List.mem_zipIdx_iff_getElem?] at hx hx'
  have here : x'.2 = x.2 := same
  rw [here, hx] at hx'
  rw [here, Option.some.inj hx']

/-- What is remembered of a text is the symbol that it leaves. -/
theorem lookup_memo_knowing (known : List (String × A)) (text : String) :
    (Resolver.knowing known : Resolver A L).memo.lookup text =
      (known.lookup text).map fun _ => symbolOf known text := by
  show (known.map fun x => (x.1, symbolOf known x.1)).lookup text = _
  generalize symbolOf known = sym
  induction known with
  | nil => rfl
  | cons x known ih =>
      rw [List.map_cons, List.lookup_cons, List.lookup_cons]
      by_cases hx : (text == x.1) = true
      · obtain rfl := eq_of_beq hx
        simp
      · rw [Bool.not_eq_true] at hx
        simp only [hx, ih]

/-! ## Learning -/

theorem lookup_concat_self (h : known.lookup text = none) (a : A) :
    (known ++ [(text, a)]).lookup text = some a := by
  rw [List.lookup_append, h]
  simp

theorem lookup_concat_of_ne {other : String} (h : known.lookup other = none)
    (hne : other ≠ text) (a : A) : (known ++ [(text, a)]).lookup other = none := by
  rw [List.lookup_append, h]
  simp [hne]

/-- The memo of what is known grows by what the text leaves. -/
theorem memo_knowing_concat (known : List (String × A)) (text : String) (a : A) :
    (Resolver.knowing (known ++ [(text, a)]) : Resolver A L).memo =
      (Resolver.knowing known : Resolver A L).memo ++
        [(text, symbolOf (known ++ [(text, a)]) text)] := by
  have old : ∀ x ∈ known, symbolOf (L := L) (known ++ [(text, a)]) x.1 = symbolOf known x.1 := by
    intro x hx
    obtain ⟨b, hb⟩ := Option.isSome_iff_exists.mp
      (List.lookup_isSome_iff.mpr ⟨x, hx, beq_self_eq_true x.1⟩)
    exact symbolOf_append hb
  show (known ++ [(text, a)]).map _ = known.map _ ++ _
  rw [List.map_append]
  congr 1
  refine List.map_congr_left ?_
  intro x hx
  rw [old x hx]

/-- The record of what is known grows by an automaton that is embedded. -/
theorem recorded_knowing_concat (known : List (String × A)) (text : String) (a : A) :
    (Resolver.knowing (known ++ [(text, a)]) : Resolver A L).recorded =
      (Resolver.knowing known : Resolver A L).recorded ++
        if (Verdict.of a).isEmbeds then [((embeddedOf known).length, a)] else [] := by
  show (embeddedOf (known ++ [(text, a)])).zipIdx.map _ = (embeddedOf known).zipIdx.map _ ++ _
  rw [embeddedOf_append, List.zipIdx_append, List.map_append]
  congr 1
  cases hv : (Verdict.of a).isEmbeds <;> simp [embeddedOf, hv]

/-- As many automata are recorded as are embedded. -/
theorem length_recorded_knowing (known : List (String × A)) :
    (Resolver.knowing known : Resolver A L).recorded.length = (embeddedOf known).length := by
  simp [Resolver.knowing]

/-- An automaton that comes last is given the next free number. -/
theorem findIdx_embeddedOf_concat (h : known.lookup text = none)
    (hv : (Verdict.of a : Verdict L) = .embeds) :
    (embeddedOf (known ++ [(text, a)])).findIdx (·.1 = text) = (embeddedOf known).length :=
  findIdx_embeddedOf (fun x hx => bne_iff_ne.mp (List.lookup_eq_none_iff.mp h x hx)) [] hv

/-- A text that is not known yet is learnt by putting its automaton behind the others. -/
theorem learn_knowing (h : known.lookup text = none) (a : A) :
    ((Resolver.knowing known).learn text a).1 = symbolOf (known ++ [(text, a)]) text ∧
      ((Resolver.knowing known).learn text a).2.1 =
        (.knowing (known ++ [(text, a)]) : Resolver A L) := by
  have now := lookup_concat_self h a
  have whole : (Resolver.knowing (known ++ [(text, a)]) : Resolver A L) =
      ⟨(Resolver.knowing known : Resolver A L).memo ++
          [(text, symbolOf (known ++ [(text, a)]) text)],
        (Resolver.knowing known : Resolver A L).recorded ++
          if (Verdict.of a).isEmbeds then [((embeddedOf known).length, a)] else []⟩ := by
    rw [← memo_knowing_concat, ← recorded_knowing_concat]
  rw [whole]
  rw [Resolver.learn]
  cases hv : Verdict.of a with
  | vanishes =>
      rw [symbolOf_of_vanishes now hv]
      simp [Verdict.isEmbeds]
  | terminal l =>
      rw [symbolOf_of_terminal now hv]
      simp [Verdict.isEmbeds]
  | embeds =>
      rw [symbolOf_of_embeds now hv, findIdx_embeddedOf_concat h hv]
      simp [Verdict.isEmbeds, length_recorded_knowing]

end Known

/-! ## Resolving -/

/-- What is told about a fragment is told by its verdict. -/
theorem Resolver.event_learn (r : Resolver A L) (text : String) (a : A) :
    (r.learn text a).2.2 = (Verdict.of a).event text r.recorded.length := by
  rw [learn]
  cases (Verdict.of a : Verdict L) <;> rfl

section Resolve

variable {c : Compiler σ E A} {known : List (String × A)} {text : String} {s s' : σ} {a : A}

/-- A known fragment is answered from memory, without a call and without a word. -/
theorem Resolver.resolve_knowing_of_known (h : known.lookup text = some a) :
    (Resolver.knowing known : Resolver A L).resolve c text s =
      ⟨.ok (symbolOf known text), .knowing known, s, []⟩ := by
  refine Resolver.resolve_of_known ?_
  rw [lookup_memo_knowing, h]
  rfl

/-- A failing call leaves the resolver as it was. -/
theorem Resolver.resolve_knowing_of_error {e : E} (h : known.lookup text = none)
    (hc : c text s = (.error e, s')) :
    (Resolver.knowing known : Resolver A L).resolve c text s =
      ⟨.error e, .knowing known, s', []⟩ := by
  refine Resolver.resolve_of_error ?_ hc
  rw [lookup_memo_knowing, h]
  rfl

/-- A new automaton is learnt, and told about with the next free number. -/
theorem Resolver.resolve_knowing_of_ok (h : known.lookup text = none)
    (hc : c text s = (.ok a, s')) :
    (Resolver.knowing known : Resolver A L).resolve c text s =
      ⟨.ok (symbolOf (known ++ [(text, a)]) text), .knowing (known ++ [(text, a)]), s',
        [(Verdict.of a).event text (embeddedOf known).length]⟩ := by
  have memo : (Resolver.knowing known : Resolver A L).memo.lookup text = none := by
    rw [lookup_memo_knowing, h]
    rfl
  obtain ⟨symbol, resolver⟩ := learn_knowing (L := L) h a
  rw [Resolver.resolve_of_ok memo hc, symbol, resolver, Resolver.event_learn,
    length_recorded_knowing]

/-- Nothing is told about a fragment that is not resolved. -/
theorem Resolver.trace_of_error {r : Resolver A L} {e : E}
    (h : (r.resolve c text s).answer = .error e) : (r.resolve c text s).trace = [] := by
  cases hk : r.memo.lookup text with
  | some symbol => rw [resolve_of_known hk]
  | none =>
      cases hc : c text s with
      | mk answer s' =>
          cases answer with
          | error e' => rw [resolve_of_error hk hc]
          | ok a =>
              rw [resolve_of_ok hk hc] at h
              cases h

end Resolve

end FragmentGrammar
