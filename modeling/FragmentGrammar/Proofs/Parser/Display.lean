import FragmentGrammar.Proofs.Lexer.Joined
import FragmentGrammar.Proofs.Parser.ByText

/-! # Displayed grammars are read back

    A production shows as a line, and to the reader the end of a line is a blank like any
    other.  So the name in front of the next arrow is first read as the last symbol of
    the body above it, and then taken back.  Written line by line, any well spelled rules
    are the rules that their text is cut into (`exists_cutInto_lines`).  A grammar that
    embeds nothing only shows texts of its source, and therefore it is read back as it is
    (`parse_text`). -/

namespace FragmentGrammar

variable {σ E A L : Type}

/-! ## Rules as text -/

/-- The kind of the token that a mention is. -/
def Mention.kind : Mention → TokenKind
  | name _ => .nonterminal
  | fragment _ => .fragment

/-- A mention as it is written. -/
def Mention.text : Mention → String
  | name n => n
  | fragment text => text

/-- The text of a mention is a word of its class. -/
def Mention.WellSpelled : Mention → Prop
  | name n => IsWord startsName n.toList
  | fragment text => IsWord startsFragment text.toList

/-- The mentions of a body, each behind a blank. -/
def wordsText (ms : List Mention) : List Char :=
  ms.flatMap fun m => ' ' :: m.text.toList

/-- A rule on a line of its own. -/
def Rule.line (r : Rule) : List Char :=
  r.head.toList ++ (' ' :: '-' :: '>' :: (wordsText r.body ++ ['\n']))

/-- Rules line by line. -/
def linesOf (rules : List Rule) : List Char :=
  rules.flatMap Rule.line

/-- All that a rule names is spelled as its kind says. -/
structure Rule.WellSpelled (r : Rule) : Prop where
  head : IsWord startsName r.head.toList
  body : ∀ m ∈ r.body, m.WellSpelled

section Lines

variable {m : Mention} {ms : List Mention} {tail : List Char} {offset : Nat} {us : List Token}

/-- A well spelled word is cut as a lexeme of its kind. -/
theorem Mention.WellSpelled.lexeme (h : m.WellSpelled) (ends : EndsWord tail) :
    Lexeme m.kind m.text.toList tail := by
  cases m with
  | name n => exact ⟨h, ends⟩
  | fragment text => exact ⟨h, ends⟩

/-- The token that a mention is mentions just that. -/
theorem mention?_at (m : Mention) (start : Nat) :
    (Token.at m.kind m.text.toList start).mention? = some m := by
  cases m <;> simp [Token.mention?, Token.at, Mention.kind, Mention.text]

theorem isWord_kind (m : Mention) : m.kind.isWord = true := by
  cases m <;> rfl

theorem isLast_kind (m : Mention) : m.kind.isLast = false := by
  cases m <;> rfl

/-- A body is read as the words that it is written with. -/
theorem exists_tiles_words (spelled : ∀ m ∈ ms, m.WellSpelled) (ends : EndsWord tail)
    (h : Tiles (offset + width (wordsText ms)) tail us) :
    ∃ words, (∀ t ∈ words, t.kind.isWord = true) ∧ mentionsOf words = ms ∧
      Tiles offset (wordsText ms ++ tail) (words ++ us) := by
  induction ms generalizing offset with
  | nil => exact ⟨[], by simp, rfl, h⟩
  | cons m ms ih =>
      have text : wordsText (m :: ms) = [' '] ++ (m.text.toList ++ wordsText ms) := rfl
      rw [text, width_append, width_append, ← Nat.add_assoc, ← Nat.add_assoc] at h
      obtain ⟨words, kinds, same, tiles⟩ :=
        ih (fun n hn => spelled n (List.mem_cons_of_mem _ hn)) h
      -- the word of `m` ends at the blank of the next one or where the body ends
      have stops : EndsWord (wordsText ms ++ tail) := by
        cases ms with
        | nil => exact ends
        | cons n ms =>
            intro c hc
            obtain rfl : ' ' = c := by simpa [wordsText] using hc
            decide
      have lexeme := (spelled m List.mem_cons_self).lexeme stops
      refine ⟨.at m.kind m.text.toList (offset + width [' ']) :: words, ?_, ?_, ?_⟩
      · intro t ht
        rcases List.mem_cons.mp ht with rfl | later
        · exact isWord_kind m
        · exact kinds t later
      · rw [mentionsOf_cons (mention?_at m _), same]
      · rw [text, List.append_assoc, List.append_assoc]
        exact .more (List.forall_mem_singleton.mpr (by decide)) lexeme (isLast_kind m) tiles

/-- A line is read as a name, an arrow and the words of its body. -/
theorem exists_tiles_line {r : Rule} (spelled : r.WellSpelled)
    (h : Tiles (offset + width r.line) tail us) :
    ∃ first arrow words, first.kind = .nonterminal ∧ first.source = r.head ∧
      arrow.kind = .arrow ∧ (∀ t ∈ words, t.kind.isWord = true) ∧ mentionsOf words = r.body ∧
      Tiles offset (r.line ++ tail) (first :: arrow :: (words ++ us)) := by
  have text : r.line ++ tail =
      [] ++ (r.head.toList ++ ([' '] ++ (['-', '>'] ++ (wordsText r.body ++ (['\n'] ++ tail))))) := by
    simp [Rule.line]
  have place : offset + width r.line =
      offset + width [] + width r.head.toList + width [' '] + width ['-', '>'] +
        width (wordsText r.body) + width ['\n'] := by
    rw [Rule.line, width_append, width_cons, width_cons, width_cons, width_append]
    simp only [width_cons, width_nil]
    omega
  have stops : EndsWord (['\n'] ++ tail) := by
    intro c hc
    obtain rfl : '\n' = c := by simpa using hc
    decide
  have name : Lexeme .nonterminal r.head.toList
      ([' '] ++ (['-', '>'] ++ (wordsText r.body ++ (['\n'] ++ tail)))) := by
    refine ⟨spelled.head, fun c hc => ?_⟩
    obtain rfl : ' ' = c := by simpa using hc
    decide
  have arrow : Lexeme .arrow ['-', '>'] (wordsText r.body ++ (['\n'] ++ tail)) := rfl
  rw [place] at h
  obtain ⟨words, kinds, same, tiles⟩ :=
    exists_tiles_words spelled.body stops
      (h.blanks_append (List.forall_mem_singleton.mpr (by decide)))
  have behind := Tiles.more (List.forall_mem_singleton.mpr (by decide)) arrow rfl tiles
  have laid := Tiles.more (List.forall_mem_nil _) name rfl behind
  rw [← text] at laid
  exact ⟨_, _, words, rfl, String.ofList_toList, rfl, kinds, same, laid⟩

/-- Rules that are written line by line are the rules that their text is cut into. -/
theorem exists_cutInto_lines {r : Rule} {rules : List Rule}
    (spelled : ∀ q ∈ r :: rules, q.WellSpelled) (offset : Nat) :
    ∃ first arrow rest, first.kind = .nonterminal ∧ first.source = r.head ∧
      arrow.kind = .arrow ∧ CutInto r.head rest (r :: rules) ∧
      Tiles offset (linesOf (r :: rules)) (first :: arrow :: rest) := by
  induction rules generalizing r offset with
  | nil =>
      have ends : Lexeme .stop [] [] := ⟨rfl, rfl⟩
      have stop : Tiles (offset + width r.line) [] [.at .stop [] (offset + width r.line)] :=
        .last (List.forall_mem_nil _) ends rfl
      obtain ⟨first, arrow, words, hf, named, ha, kinds, same, tiles⟩ :=
        exists_tiles_line (spelled r List.mem_cons_self) stop
      have cut : CutInto r.head (words ++ [.at .stop [] (offset + width r.line)])
          [⟨r.head, mentionsOf words⟩] := .last kinds rfl
      rw [same] at cut
      exact ⟨first, arrow, _, hf, named, ha, cut, tiles⟩
  | cons next rules ih =>
      -- the head of the next line ends the body of this one
      obtain ⟨name, arrow', rest, hn, source, ha', later, below⟩ :=
        ih (fun q hq => spelled q (List.mem_cons_of_mem _ hq)) (offset + width r.line)
      obtain ⟨first, arrow, words, hf, named, ha, kinds, same, tiles⟩ :=
        exists_tiles_line (spelled r List.mem_cons_self) below
      rw [← source] at later
      have cut : CutInto r.head _ (⟨r.head, mentionsOf words⟩ :: _) := .arrow kinds hn ha' later
      rw [same] at cut
      exact ⟨first, arrow, _, hf, named, ha, cut, tiles⟩

end Lines

/-! ## Productions as rules -/

/-- A symbol as the mention that its text is. -/
def Symbol.mention : Symbol L → Mention
  | nonterminal n => .name n.text
  | terminal t => .fragment t.source

/-- A production as the rule that its line is. -/
def Production.rule (p : Production L) : Rule :=
  ⟨p.head.text, if p.body.isEmpty then [.fragment "ε"] else p.body.map Symbol.mention⟩

/-- A symbol is displayed as the word that mentions it. -/
theorem text_mention (s : Symbol L) : s.mention.text = s.text := by
  cases s <;> rfl

/-- A body is displayed word by word, and an empty one as `ε`. -/
theorem bodyText_toList (body : List (Symbol L)) :
    (Production.bodyText body).toList =
      wordsText (if body.isEmpty then [.fragment "ε"] else body.map Symbol.mention) := by
  cases body with
  | nil => simp [Production.bodyText, wordsText, Mention.text]
  | cons s body =>
      show (String.join ((s :: body).map fun s => " " ++ s.text)).toList =
        ((s :: body).map Symbol.mention).flatMap fun m => ' ' :: m.text.toList
      rw [String.toList_join, List.flatMap_map, List.flatMap_map]
      congr 1
      funext t
      rw [String.toList_append, text_mention]
      rfl

/-- A displayed grammar is its productions, line by line. -/
theorem Grammar.text_toList (g : Grammar L) :
    g.text.toList = linesOf (g.productions.map Production.rule) := by
  rw [Grammar.text, String.toList_join, linesOf, List.flatMap_map, List.flatMap_map]
  congr 1
  funext p
  rw [Production.text, String.toList_append, String.toList_append, String.toList_append,
    bodyText_toList]
  simp [Rule.line, Production.rule]

section Legible

variable [Automaton A L] [Label L] {f : String → Except E A} {p : Production L}
  {ids : List String}

/-- The symbol is what a name, or a fragment that is not embedded, leaves in a body. -/
def Symbol.Legible (f : String → Except E A) : Symbol L → Prop
  | nonterminal n => ∃ name, n = .named name ∧ IsWord startsName name.toList
  | terminal t => IsWord startsFragment t.source.toList ∧
      ∃ a, f t.source = .ok a ∧ Verdict.of a = .terminal t.label

/-- The line of the production says all that there is to say about it. -/
structure Production.Legible (f : String → Except E A) (p : Production L) : Prop where
  head : ∃ name, p.head = .named name ∧ IsWord startsName name.toList
  body : ∀ s ∈ p.body, s.Legible f

/-- The automaton that `f` gives to the text accepts the empty word and nothing else. -/
def IsEmptyWord (f : String → Except E A) (text : String) : Prop :=
  ∃ a, f text = .ok a ∧ Automaton.acceptsOnlyEpsilon a = true

/-- The text for the empty word vanishes. -/
theorem IsEmptyWord.verdict {text : String} (h : IsEmptyWord f text) :
    ∃ a, f text = .ok a ∧ Verdict.of a = (.vanishes : Verdict L) := by
  obtain ⟨a, ha, empty⟩ := h
  exact ⟨a, ha, by rw [Verdict.of, if_pos empty]⟩

namespace Production.Legible

theorem wellSpelled (h : p.Legible f) : p.rule.WellSpelled where
  head := by
    obtain ⟨name, named, word⟩ := h.head
    rw [Production.rule, named]
    exact word
  body := by
    intro m hm
    rw [Production.rule] at hm
    split at hm
    · obtain rfl := List.mem_singleton.mp hm
      exact ⟨⟨'ε', [], rfl, by decide⟩, List.forall_mem_singleton.mpr (by decide)⟩
    · obtain ⟨s, hs, rfl⟩ := List.mem_map.mp hm
      cases s with
      | nonterminal n =>
          obtain ⟨name, rfl, word⟩ := h.body _ hs
          exact word
      | terminal t => exact (h.body _ hs).1

/-- A legible symbol is what its text leaves. -/
theorem symbol_mention {s : Symbol L} (h : s.Legible f) :
    s.mention.symbol (symbolBy f ids) = some s := by
  cases s with
  | nonterminal n =>
      obtain ⟨name, rfl, -⟩ := h
      rfl
  | terminal t =>
      obtain ⟨-, a, ha, hv⟩ := h
      exact symbolBy_of_terminal ha hv

/-- The rule that a legible production shows as has that production. -/
theorem production_rule (h : p.Legible f) (empty : IsEmptyWord f "ε") :
    p.rule.production (symbolBy f ids) = p := by
  obtain ⟨head, body⟩ := p
  obtain ⟨name, rfl, -⟩ := h.head
  rw [Production.rule, Rule.production]
  congr 1
  cases body with
  | nil =>
      obtain ⟨a, ha, hv⟩ := empty.verdict
      have nothing : (Mention.fragment "ε").symbol (symbolBy f ids) = none :=
        symbolBy_of_vanishes ha hv
      rw [List.isEmpty_nil, if_pos rfl, List.filterMap_cons, nothing]
      rfl
  | cons s body =>
      rw [List.isEmpty_cons, if_neg Bool.false_ne_true, List.filterMap_map]
      conv => rhs; rw [← List.filterMap_some (l := s :: body)]
      exact List.filterMap_congr fun t ht => symbol_mention (h.body t ht)

/-- The fragments on the line of a legible production have automata, and none of these is
    embedded. -/
theorem not_embeds (h : p.Legible f) (empty : IsEmptyWord f "ε") {text : String}
    (hm : .fragment text ∈ p.rule.body) : (∃ a, f text = .ok a) ∧ embeds f text = false := by
  have judged {a : A} (ha : f text = .ok a) (hv : (Verdict.of a).isEmbeds = false) :
      (∃ a, f text = .ok a) ∧ embeds f text = false := by
    rw [embeds, ha]
    exact ⟨⟨a, rfl⟩, hv⟩
  rw [Production.rule] at hm
  split at hm
  · obtain rfl : text = "ε" := by simpa using hm
    obtain ⟨a, ha, hv⟩ := empty.verdict
    exact judged ha (by rw [hv]; rfl)
  · obtain ⟨s, hs, same⟩ := List.mem_map.mp hm
    cases s with
    | nonterminal n => cases same
    | terminal t =>
        obtain rfl : t.source = text := by simpa [Symbol.mention] using same
        obtain ⟨-, a, ha, hv⟩ := h.body _ hs
        exact judged ha (by rw [hv]; rfl)

end Production.Legible

/-- A well spelled rule none of whose fragments is embedded leaves a legible production. -/
theorem Rule.WellSpelled.legible {r : Rule} (h : r.WellSpelled)
    (plain : ∀ text, .fragment text ∈ r.body → embeds f text = false) :
    (r.production (symbolBy (L := L) f ids)).Legible f where
  head := ⟨r.head, rfl, h.head⟩
  body := by
    intro s hs
    obtain ⟨m, hm, left⟩ := List.mem_filterMap.mp hs
    cases m with
    | name n =>
        obtain rfl : Symbol.nonterminal (.named n) = s := by simpa [Mention.symbol] using left
        exact ⟨n, rfl, h.body _ hm⟩
    | fragment text =>
        replace left : symbolBy f ids text = some s := left
        have no := plain text hm
        cases hf : f text with
        | error e => simp [symbolBy, hf] at left
        | ok a =>
            cases hv : (Verdict.of a : Verdict L) with
            | vanishes => simp [symbolBy_of_vanishes hf hv] at left
            | embeds => simp [embeds, hf, hv, Verdict.isEmbeds] at no
            | terminal l =>
                obtain rfl : Symbol.terminal ⟨l, text⟩ = s := by
                  simpa [symbolBy_of_terminal hf hv] using left
                exact ⟨h.body _ hm, a, hf, hv⟩

/-! ## Reading a displayed grammar -/

/-- What a well spelled token mentions is well spelled. -/
theorem Token.WellSpelled.mention {t : Token} {m : Mention} (h : t.WellSpelled)
    (hm : t.mention? = some m) : m.WellSpelled := by
  obtain ⟨name, fragment⟩ := h
  cases hk : t.kind with
  | nonterminal =>
      obtain rfl : Mention.name t.source = m := by
        simpa [mention?_of_nonterminal hk] using hm
      exact name hk
  | fragment =>
      obtain rfl : Mention.fragment t.source = m := by
        simpa [mention?_of_fragment hk] using hm
      exact fragment hk
  | arrow | bar | unknown | stop => simp [Token.mention?, hk] at hm

/-- All rules of a well spelled stream are well spelled. -/
theorem CutInto.wellSpelled {head : String} {ts : List Token} {rules : List Rule}
    (h : CutInto head ts rules) (word : IsWord startsName head.toList)
    (spelled : ∀ t ∈ ts, t.WellSpelled) {r : Rule} (hr : r ∈ rules) : r.WellSpelled := by
  obtain ⟨segment, within, body, named⟩ := h.exists_segment hr
  constructor
  · rcases named with same | ⟨t, ht, hk, same⟩
    · rwa [same]
    · rw [same]
      exact (spelled t ht).1 hk
  · intro m hm
    rw [body] at hm
    obtain ⟨t, ht, mentioned⟩ := List.mem_filterMap.mp hm
    exact (spelled t (within t ht)).mention mentioned

/-- A fragment of the stream stands in a rule. -/
theorem CutInto.exists_rule {head : String} {ts : List Token} {rules : List Rule}
    (h : CutInto head ts rules) {t : Token} (ht : t ∈ ts) (hk : t.kind = .fragment) :
    ∃ r ∈ rules, .fragment t.source ∈ r.body := by
  have body {segment : List Token} (ht : t ∈ segment) :
      .fragment t.source ∈ mentionsOf segment :=
    List.mem_filterMap.mpr ⟨t, ht, mention?_of_fragment hk⟩
  induction h with
  | last words hs =>
      rcases List.mem_append.mp ht with here | stop
      · exact ⟨_, List.mem_singleton_self _, body here⟩
      · obtain rfl := List.mem_singleton.mp stop
        rw [hk] at hs
        cases hs
  | bar words hb _ ih =>
      rcases List.mem_append.mp ht with here | behind
      · exact ⟨_, List.mem_cons_self, body here⟩
      · rcases List.mem_cons.mp behind with rfl | later
        · rw [hk] at hb
          cases hb
        · obtain ⟨r, hr, found⟩ := ih later
          exact ⟨r, List.mem_cons_of_mem _ hr, found⟩
  | arrow words hn ha _ ih =>
      rcases List.mem_append.mp ht with here | behind
      · exact ⟨_, List.mem_cons_self, body here⟩
      · rcases List.mem_cons.mp behind with rfl | behind
        · rw [hk] at hn
          cases hn
        · rcases List.mem_cons.mp behind with rfl | later
          · rw [hk] at ha
            cases ha
          · obtain ⟨r, hr, found⟩ := ih later
            exact ⟨r, List.mem_cons_of_mem _ hr, found⟩

/-- The text of a grammar of legible productions writes just these productions. -/
theorem writtenBy_text {ps : List (Production L)} (legible : ∀ q ∈ p :: ps, q.Legible f)
    (empty : IsEmptyWord f "ε") (start : Nonterminal) :
    WrittenBy f (tokens (Grammar.text ⟨start, p :: ps⟩)) (⟨p.head, p :: ps, []⟩ : Written A L) := by
  have spelled : ∀ r ∈ (p :: ps).map Production.rule, r.WellSpelled := by
    intro r hr
    obtain ⟨q, hq, rfl⟩ := List.mem_map.mp hr
    exact (legible q hq).wellSpelled
  obtain ⟨first, arrow, rest, hf, named, ha, cut, tiles⟩ := exists_cutInto_lines spelled 0
  have split : tokens (Grammar.text ⟨start, p :: ps⟩) = first :: arrow :: rest := by
    rw [← tiles_iff, Grammar.text_toList]
    exact tiles
  have judged : ∀ text ∈ fragmentsOf (tokens (Grammar.text ⟨start, p :: ps⟩)),
      (∃ a, f text = .ok a) ∧ embeds f text = false := by
    intro text ht
    rw [split] at ht
    obtain ⟨t, behind, hk, rfl⟩ := mem_fragmentsOf.mp ht
    obtain ⟨r, hr, hm⟩ := cut.exists_rule behind hk
    obtain ⟨q, hq, rfl⟩ : ∃ q ∈ p :: ps, q.rule = r := List.mem_map.mp hr
    exact (legible q hq).not_embeds empty hm
  have nothing : embeddedBy f (tokens (Grammar.text ⟨start, p :: ps⟩)) = [] := by
    refine List.filter_eq_nil_iff.mpr fun text ht => ?_
    rw [(judged text ht).2]
    exact Bool.false_ne_true
  have same : (p.rule :: ps.map Production.rule).map (Rule.production (symbolBy f [])) =
      p :: ps := by
    rw [← List.map_cons, List.map_map]
    conv => rhs; rw [← List.map_id (p :: ps)]
    exact List.map_congr_left fun q hq => (legible q hq).production_rule empty
  have head : p.head = .named first.source := by
    obtain ⟨name, hp, -⟩ := (legible p List.mem_cons_self).head
    rw [named, Production.rule, hp]
    rfl
  rw [← named] at cut
  refine ⟨first, arrow, rest, _, split, hf, ha, cut, fun text ht => (judged text ht).1, ?_⟩
  rw [nothing, same, head]
  rfl

/-- Without automata there is nothing to complete. -/
theorem Written.grammar_of_plain {w : Written A L} (h : w.recorded = []) :
    w.grammar = ⟨w.start, w.productions⟩ := by
  rw [Written.grammar, Written.embedded_eq, h, List.flatMap_nil, List.append_nil]

/-- Where nothing is recorded, nothing is embedded. -/
theorem embeddedBy_eq_nil {ts : List Token}
    (h : (numberedBy f 0 (embeddedBy f ts) : List (Nat × A)) = []) : embeddedBy f ts = [] := by
  rw [← List.length_eq_zero_iff, ← length_automataBy embeds_of_mem_embeddedBy]
  simpa [numberedBy] using h

/-- A grammar that embeds nothing is read back from its own text, as it is: with its start
    symbol, its productions in their order, and the source text of every terminal. -/
theorem parse_text {c : Compiler σ E A} (byText : c.AnswersBy f) (empty : IsEmptyWord f "ε")
    {source : String} {s : σ} {w : Written A L} (h : (read c source s).result = .ok w)
    (plain : w.recorded = []) (s' : σ) :
    (parse c source s).result = .ok w.grammar ∧
      (parse c w.grammar.text s').result = .ok w.grammar := by
  refine ⟨parse_eq_ok_iff.mpr ⟨w, h, rfl⟩, ?_⟩
  obtain ⟨first, second, rest, rules, split, hf, hs, cut, -, rfl⟩ := (read_eq_ok_iff byText).mp h
  have nothing := embeddedBy_eq_nil plain
  have spelled := (tiles_iff.mpr split).wellSpelled
  have rulesSpelled {r : Rule} (hr : r ∈ rules) : r.WellSpelled :=
    cut.wellSpelled ((spelled first (by simp)).1 hf) (fun t ht => spelled t (by simp [ht])) hr
  have legible : ∀ q ∈ rules.map (Rule.production (symbolBy (L := L) f [])), q.Legible f := by
    intro q hq
    obtain ⟨r, hr, rfl⟩ := List.mem_map.mp hq
    refine (rulesSpelled hr).legible fun text hm => ?_
    have known : text ∈ fragmentsOf (tokens source) := by
      rw [split]
      exact cut.mem_fragmentsOf hr hm
    simpa using List.filter_eq_nil_iff.mp nothing text known
  -- the first rule is one of the start symbol
  have first_head := cut.head_eq
  obtain ⟨r, more, rfl⟩ : ∃ r more, rules = r :: more := by
    cases rules with
    | nil => cases first_head
    | cons r more => exact ⟨r, more, rfl⟩
  have start : (r.production (symbolBy (L := L) f [])).head = .named first.source :=
    congrArg Nonterminal.named (by simpa using first_head)
  have again := writtenBy_text legible empty (.named first.source)
  rw [Written.grammar_of_plain plain, nothing]
  refine parse_eq_ok_iff.mpr ⟨_, (read_eq_ok_iff byText).mpr again, ?_⟩
  rw [Written.grammar_of_plain rfl, start]
  rfl

end Legible

/-- Takes `ε` and `~` for the empty word and any other text for one letter. -/
def letterOrEmpty (text : String) : Except String (ListedAutomaton CaseBlind) :=
  .ok <| if text = "ε" ∨ text = "~" then ⟨0, [0], [0], []⟩
    else ⟨0, [0, 1], [1], [⟨0, 1, ⟨text⟩⟩]⟩

theorem isEmptyWord_letterOrEmpty {text : String} (h : text = "ε" ∨ text = "~") :
    IsEmptyWord letterOrEmpty text := by
  exact ⟨_, by rw [letterOrEmpty, if_pos h], Verdict.of_eq_vanishes_iff.mp Verdict.of_still⟩

theorem not_embeds_letterOrEmpty {text : String}
    (h : Label.isEpsilon (⟨text⟩ : CaseBlind) = false) :
    embeds letterOrEmpty text = false := by
  by_cases empty : text = "ε" ∨ text = "~"
  · obtain ⟨a, ha, hv⟩ := (isEmptyWord_letterOrEmpty empty).verdict
    rw [embeds, ha]
    simp only [hv]
    rfl
  · rw [embeds, letterOrEmpty, if_neg empty]
    simp only [Verdict.of_letter h]
    rfl

/-- A name behind a name, bodies that vanish and an empty one survive being displayed. -/
theorem parse_text_letterOrEmpty :
    ∃ g : Grammar CaseBlind,
      (parse (.ofFunction letterOrEmpty) "S -> a T T -> ~ | b |" ()).result = .ok g ∧
        (parse (.ofFunction letterOrEmpty) g.text ()).result = .ok g := by
  have byText : (Compiler.ofFunction letterOrEmpty).AnswersBy letterOrEmpty := fun _ _ => rfl
  have total (text : String) (s : Unit) :
      ∃ a, (Compiler.ofFunction letterOrEmpty text s).1 = .ok a := ⟨_, rfl⟩
  have plain : embeddedBy letterOrEmpty (tokens "S -> a T T -> ~ | b |") = [] := by
    have letters : ∀ text ∈ fragmentsOf (tokens "S -> a T T -> ~ | b |"),
        Label.isEpsilon (⟨text⟩ : CaseBlind) = false := by
      decide +kernel
    refine List.filter_eq_nil_iff.mpr fun text ht => ?_
    rw [not_embeds_letterOrEmpty (letters text ht)]
    exact Bool.false_ne_true
  obtain ⟨g, h⟩ := exists_parse_ok (by decide +kernel : Orderly (tokens "S -> a T T -> ~ | b |"))
    (consult_ok total _ ())
  obtain ⟨w, hw, -⟩ := parse_eq_ok_iff.mp h
  have written := (read_eq_ok_iff byText).mp hw
  obtain ⟨_, _, _, _, -, -, -, -, -, same⟩ := written
  have none : w.recorded = [] := by
    rw [same, plain]
    rfl
  exact ⟨w.grammar, parse_text byText (isEmptyWord_letterOrEmpty (.inl rfl)) hw none ()⟩

end FragmentGrammar
