import FragmentGrammar.Proofs.Resolver.Consult

/-! # Compilers that answer by the text

    Where a compiler answers by the text alone, the order in which it is asked does not
    matter.  What a fragment leaves is then a function of its text and of the list of
    fragments that are embedded, its number being its place in that list (`symbolBy`),
    and the recorded automata are the answers to that list (`numberedBy`). -/

namespace FragmentGrammar

variable {σ E A L : Type} {c : Compiler σ E A} {f : String → Except E A}

/-- The compiler answers every text as `f` does, whatever its state is. -/
def Compiler.AnswersBy (c : Compiler σ E A) (f : String → Except E A) : Prop :=
  ∀ text s, (c text s).1 = f text

/-- The automata that `f` gives to texts, each with its text. -/
def automataBy (f : String → Except E A) (texts : List String) : List (String × A) :=
  texts.filterMap fun text => (f text).toOption.map (text, ·)

/-- The automata that `f` gives to texts, with numbers from `n` on. -/
def numberedBy (f : String → Except E A) (n : Nat) (texts : List String) : List (Nat × A) :=
  ((automataBy f texts).zipIdx n).map fun x => (x.2, x.1.2)

namespace Compiler.AnswersBy

/-- Asked in any state, such a compiler answers as the function does. -/
theorem consult_eq (h : c.AnswersBy f) (texts : List String) (s : σ) :
    c.consult texts s = texts.map fun text => (text, f text) := by
  induction texts generalizing s with
  | nil => rfl
  | cons text texts ih => rw [Compiler.consult, h, ih, List.map_cons]

/-- So the automata of a source do not depend on the state either. -/
theorem automata_eq (h : c.AnswersBy f) (ts : List Token) (s : σ) :
    c.automata ts s = automataBy f (fragmentsOf ts) := by
  rw [Compiler.automata, automataOf, h.consult_eq, List.filterMap_map]
  rfl

/-- No answer is a failure exactly when `f` gives an automaton to every text. -/
theorem consult_ok_iff (h : c.AnswersBy f) (texts : List String) (s : σ) :
    (∀ x ∈ c.consult texts s, ∃ a, x.2 = .ok a) ↔ ∀ text ∈ texts, ∃ a, f text = .ok a := by
  rw [h.consult_eq]
  simp

end Compiler.AnswersBy

theorem automataBy_cons_ok {text : String} {a : A} (h : f text = .ok a) (texts : List String) :
    automataBy f (text :: texts) = (text, a) :: automataBy f texts := by
  rw [automataBy, List.filterMap_cons, h]
  rfl

theorem automataBy_cons_error {text : String} {e : E} (h : f text = .error e)
    (texts : List String) : automataBy f (text :: texts) = automataBy f texts := by
  rw [automataBy, List.filterMap_cons, h]
  rfl

theorem automataBy_append (f : String → Except E A) (texts more : List String) :
    automataBy f (texts ++ more) = automataBy f texts ++ automataBy f more :=
  List.filterMap_append

/-- Only the texts that were asked about are found. -/
theorem lookup_automataBy_of_not_mem {texts : List String} {text : String} (h : text ∉ texts) :
    (automataBy f texts).lookup text = none := by
  rw [List.lookup_eq_none_iff]
  intro x hx
  obtain ⟨asked, known, answer⟩ := List.mem_filterMap.mp hx
  obtain ⟨a, -, rfl⟩ := Option.map_eq_some_iff.mp answer
  rw [bne_iff_ne]
  rintro rfl
  exact h known

/-- The automaton of a text is what the function makes of it. -/
theorem lookup_automataBy {texts : List String} {text : String} (h : text ∈ texts) :
    (automataBy f texts).lookup text = (f text).toOption := by
  induction texts with
  | nil => cases h
  | cons first texts ih =>
      cases hf : f first with
      | error e =>
          rw [automataBy_cons_error hf]
          by_cases later : text ∈ texts
          · exact ih later
          · obtain rfl : text = first := (List.mem_cons.mp h).resolve_right later
            rw [lookup_automataBy_of_not_mem later, hf]
            rfl
      | ok a =>
          rw [automataBy_cons_ok hf, List.lookup_cons]
          by_cases same : text = first
          · rw [same, beq_self_eq_true, hf]
            rfl
          · rw [beq_false_of_ne same]
            exact ih ((List.mem_cons.mp h).resolve_left same)

/-! ## Numbers -/

variable [Automaton A L] [Label L]

/-- The fragment has an automaton that is embedded. -/
def embeds (f : String → Except E A) (text : String) : Bool :=
  match f text with
  | .ok a => (Verdict.of a).isEmbeds
  | .error _ => false

/-- The fragments of a token stream that are embedded, where they first occur. -/
def embeddedBy (f : String → Except E A) (ts : List Token) : List String :=
  (fragmentsOf ts).filter (embeds f)

/-- The symbol that a fragment leaves, if any, where `ids` are the fragments that are
    embedded. -/
def symbolBy (f : String → Except E A) (ids : List String) (text : String) :
    Option (Symbol L) :=
  match f text with
  | .error _ => none
  | .ok a =>
    match Verdict.of a with
    | .vanishes => none
    | .terminal l => some (.terminal ⟨l, text⟩)
    | .embeds => some (.nonterminal (.entry (ids.idxOf text)))

/-- A fragment of the source that is embedded is in the list. -/
theorem mem_embeddedBy {ts : List Token} {text : String} (h : text ∈ fragmentsOf ts)
    (embedded : embeds f text = true) : text ∈ embeddedBy f ts :=
  List.mem_filter.mpr ⟨h, embedded⟩

theorem embeds_of_mem_embeddedBy {ts : List Token} :
    ∀ text ∈ embeddedBy f ts, embeds f text = true := by
  intro text ht
  exact (List.mem_filter.mp ht).2

/-- No fragment is embedded twice. -/
theorem nodup_embeddedBy (f : String → Except E A) (ts : List Token) : (embeddedBy f ts).Nodup :=
  (nodup_fragmentsOf ts).filter _

/-- A text is embedded just if it has an automaton that is judged so. -/
theorem embeds_iff {text : String} :
    embeds f text = true ↔ ∃ a, f text = .ok a ∧ (Verdict.of a).isEmbeds = true := by
  rw [embeds]
  cases f text <;> simp

/-- A fragment that vanishes leaves no symbol, whatever is numbered. -/
theorem symbolBy_of_vanishes {ids : List String} {text : String} {a : A} (h : f text = .ok a)
    (hv : Verdict.of a = (.vanishes : Verdict L)) : symbolBy f ids text = none := by
  rw [symbolBy, h]
  simp only [hv]

/-- A terminal needs no number either. -/
theorem symbolBy_of_terminal {ids : List String} {text : String} {a : A} {l : L}
    (h : f text = .ok a) (hv : Verdict.of a = .terminal l) :
    symbolBy f ids text = some (.terminal ⟨l, text⟩) := by
  rw [symbolBy, h]
  simp only [hv]

/-- Any other fragment is called by its place among the numbered texts. -/
theorem symbolBy_of_embeds {ids : List String} {text : String} {a : A} (h : f text = .ok a)
    (hv : Verdict.of a = (.embeds : Verdict L)) :
    symbolBy f ids text = some (.nonterminal (.entry (ids.idxOf text))) := by
  rw [symbolBy, h]
  simp only [hv]

/-- The automata that are embedded are the answers to the texts that are. -/
theorem embeddedOf_automataBy (f : String → Except E A) (texts : List String) :
    embeddedOf (automataBy f texts) = automataBy f (texts.filter (embeds f)) := by
  induction texts with
  | nil => rfl
  | cons text texts ih =>
      cases hf : f text with
      | error e =>
          have no : embeds f text = false := by
            rw [embeds, hf]
          rw [automataBy_cons_error hf, List.filter_cons_of_neg (by simp [no]), ih]
      | ok a =>
          have same : embeds f text = (Verdict.of a).isEmbeds := by
            rw [embeds, hf]
          rw [automataBy_cons_ok hf, embeddedOf, List.filter_cons, List.filter_cons, same]
          cases (Verdict.of a).isEmbeds with
          | true =>
              rw [if_pos rfl, if_pos rfl, automataBy_cons_ok hf, ← ih]
              rfl
          | false => exact ih

/-- Texts that are embedded all have their automaton. -/
theorem map_fst_automataBy {texts : List String} (h : ∀ text ∈ texts, embeds f text = true) :
    (automataBy f texts).map (·.1) = texts := by
  induction texts with
  | nil => rfl
  | cons text texts ih =>
      obtain ⟨a, ha, -⟩ := embeds_iff.mp (h text List.mem_cons_self)
      rw [automataBy_cons_ok ha, List.map_cons, ih fun t ht => h t (List.mem_cons_of_mem _ ht)]

/-- No text is left out when all have automata. -/
theorem length_automataBy {texts : List String} (h : ∀ text ∈ texts, embeds f text = true) :
    (automataBy f texts).length = texts.length := by
  rw [← List.length_map (·.1), map_fst_automataBy h]

/-- Numbers go on behind the texts in front. -/
theorem numberedBy_append {texts : List String} (h : ∀ text ∈ texts, embeds f text = true)
    (n : Nat) (more : List String) :
    numberedBy f n (texts ++ more) = numberedBy f n texts ++ numberedBy f (n + texts.length) more := by
  rw [numberedBy, automataBy_append, List.zipIdx_append, List.map_append, length_automataBy h]
  rfl

/-- The symbol of a fragment is known from the numbered texts, without their automata. -/
theorem symbolOf_automataBy {texts : List String} {text : String} (h : text ∈ texts) :
    symbolOf (automataBy f texts) text = symbolBy (L := L) f (texts.filter (embeds f)) text := by
  have found := lookup_automataBy (f := f) h
  cases hf : f text with
  | error e =>
      rw [hf] at found
      rw [symbolOf, found, symbolBy, hf]
      rfl
  | ok a =>
      replace found : (automataBy f texts).lookup text = some a := by
        rw [found, hf]
        rfl
      cases hv : (Verdict.of a : Verdict L) with
      | vanishes => rw [symbolOf_of_vanishes found hv, symbolBy_of_vanishes hf hv]
      | terminal l => rw [symbolOf_of_terminal found hv, symbolBy_of_terminal hf hv]
      | embeds =>
          have all : ∀ t ∈ texts.filter (embeds f), embeds f t = true := by
            intro t ht
            exact (List.mem_filter.mp ht).2
          have place : (embeddedOf (automataBy f texts)).findIdx (·.1 = text) =
              (texts.filter (embeds f)).idxOf text := by
            rw [embeddedOf_automataBy]
            conv => rhs; rw [← map_fst_automataBy all]
            rw [List.idxOf, List.findIdx_map]
            rfl
          rw [symbolOf_of_embeds found hv, symbolBy_of_embeds hf hv, place]

/-- The recorded automata are numbered in the order of their texts. -/
theorem recorded_knowing_automataBy (f : String → Except E A) (texts : List String) :
    (Resolver.knowing (automataBy f texts) : Resolver A L).recorded =
      numberedBy f 0 (texts.filter (embeds f)) := by
  show (embeddedOf (automataBy f texts)).zipIdx.map _ = _
  rw [embeddedOf_automataBy]
  rfl

/-! ## What has been learnt -/

section Learnt

variable {known : List (String × A)} {text : String} {a : A}

/-- The known automata are answers of `f`. -/
def KnownBy (f : String → Except E A) (known : List (String × A)) : Prop :=
  ∀ x ∈ known, f x.1 = .ok x.2

/-- What is known of a text is what the function says. -/
theorem KnownBy.lookup (h : KnownBy f known) (hk : known.lookup text = some a) :
    f text = .ok a := by
  obtain ⟨before, after, rfl, -⟩ := List.lookup_eq_some_iff.mp hk
  exact h (text, a) (by simp)

/-- One more answer of the function may be known. -/
theorem KnownBy.concat (h : KnownBy f known) (ok : f text = .ok a) :
    KnownBy f (known ++ [(text, a)]) := by
  intro x hx
  rcases List.mem_append.mp hx with old | new
  · exact h x old
  · rw [List.mem_singleton.mp new]
    exact ok

namespace Resolver

/-- A text that has an automaton is known by it from then on, if not before. -/
theorem resolve_of_answersBy (byText : c.AnswersBy f) (h : KnownBy f known) (ok : f text = .ok a)
    (s : σ) : ∃ known', KnownBy f known' ∧ known'.lookup text = some a ∧
      ((knowing known : Resolver A L).resolve c text s).answer = .ok (symbolOf known' text) ∧
      ((knowing known : Resolver A L).resolve c text s).resolver = .knowing known' := by
  cases hk : known.lookup text with
  | some b =>
      obtain rfl := Except.ok.inj (ok.symm.trans (h.lookup hk))
      rw [resolve_knowing_of_known hk]
      exact ⟨known, h, hk, rfl, rfl⟩
  | none =>
      have asked : c text s = (.ok a, (c text s).2) := by
        rw [← ok, ← byText text s]
      have resolved := resolve_knowing_of_ok (L := L) hk asked
      rw [resolved]
      exact ⟨known ++ [(text, a)], h.concat ok, lookup_concat_self hk a, rfl, rfl⟩

/-- What is learnt one text after the other are answers of `f`. -/
theorem resolveAll_of_answersBy (byText : c.AnswersBy f) (h : KnownBy f known)
    (texts : List String) (s : σ) : ∃ known', KnownBy f known' ∧
      ((knowing known : Resolver A L).resolveAll c texts s).2.1 = .knowing known' := by
  induction texts generalizing known s with
  | nil => exact ⟨known, h, rfl⟩
  | cons text texts ih =>
      obtain ⟨mid, hmid, resolver⟩ : ∃ mid, KnownBy f mid ∧
          ((knowing known : Resolver A L).resolve c text s).resolver = .knowing mid := by
        cases hf : f text with
        | ok a =>
            obtain ⟨mid, hmid, -, -, resolver⟩ :=
              resolve_of_answersBy (L := L) byText h hf s
            exact ⟨mid, hmid, resolver⟩
        | error e =>
            have unknown : known.lookup text = none := by
              cases hk : known.lookup text with
              | none => rfl
              | some a => cases hf.symm.trans (h.lookup hk)
            have asked : c text s = (.error e, (c text s).2) := by
              rw [← hf, ← byText text s]
            rw [resolve_knowing_of_error unknown asked]
            exact ⟨known, h, rfl⟩
      rw [resolveAll, resolver]
      exact ih hmid _

end Resolver

end Learnt

end FragmentGrammar
