import FragmentGrammar.Parser
import FragmentGrammar.Proofs.Parser.Rules
import FragmentGrammar.Proofs.Resolver.Consult

/-! # A draft follows the rules of its tokens

    A draft is built one token at a time and takes a name back when an arrow shows that
    it was a head.  Rules are read with the next token in sight.  The two keep in step
    all the same (`Draft.Follows`): the body under construction is made of the tokens
    since the last break, and once these tokens and what is still ahead are cut into rules,
    the whole stream is, with the rules already written in front. -/

namespace FragmentGrammar

variable {σ E A L : Type}

/-- The draft `d` is what the tokens `before` have led to, when `meaning` says what
    fragments leave. -/
structure Draft.Follows (meaning : String → Option (Symbol L)) (before : List Token)
    (d : Draft A L) : Prop where
  opened : ∃ first second more, before = first :: second :: more ∧
    first.kind = .nonterminal ∧ second.kind = .arrow ∧ d.start = first.source
  previous : before.getLast? = some d.previous
  words : ∀ t ∈ sinceBreak before, t.kind.isWord = true
  count : d.written.length + 1 = before.countP (·.kind.isBreak)
  reads : ∃ done head, d.written = done.map (Rule.production meaning) ∧
    d.production = Rule.production meaning ⟨head, mentionsOf (sinceBreak before)⟩ ∧
    ∀ ahead rules, CutInto head (sinceBreak before ++ ahead) rules →
      CutInto d.start (before.drop 2 ++ ahead) (done ++ rules)

namespace Draft

variable {meaning : String → Option (Symbol L)} {before : List Token} {d : Draft A L} {t : Token}

/-- Behind the name and the arrow that open a source nothing has been written. -/
theorem follows_opened {first second : Token} (h : first.kind = .nonterminal)
    (h' : second.kind = .arrow) :
    (opened first.source second : Draft A L).Follows meaning [first, second] where
  opened := ⟨first, second, [], rfl, h, h', rfl⟩
  previous := rfl
  words := by
    have none : sinceBreak ([first] ++ [second]) = [] :=
      sinceBreak_concat_of_break _ (by rw [h']; rfl)
    rw [List.singleton_append] at none
    rw [none]
    intro t ht
    cases ht
  count := by simp [Draft.opened, TokenKind.isBreak, h, h']
  reads := by
    have none : sinceBreak ([first] ++ [second]) = [] :=
      sinceBreak_concat_of_break _ (by rw [h']; rfl)
    rw [List.singleton_append] at none
    rw [none]
    exact ⟨[], first.source, rfl, rfl, fun _ _ h => h⟩

/-! ## Chains -/

/-- An empty body cannot be chained from. -/
theorem chain_of_nil (h : d.body = []) : d.chain t = .error (.emptyChain t.span) := by
  simp [chain, h]

/-- An arrow that is not behind a name is refused. -/
theorem chain_of_ne (hb : d.body ≠ []) (hp : d.previous.kind ≠ .nonterminal) :
    d.chain t = .error (.chainFromOther d.previous.kind d.previous.source t.span) := by
  simp [chain, hb, hp]

/-- A nonterminal at the end of the body is taken back and becomes the head. -/
theorem chain_of_concat {body : List (Symbol L)} {next : Nonterminal}
    (hb : d.body = body ++ [.nonterminal next]) (hp : d.previous.kind = .nonterminal) :
    d.chain t = .ok (⟨d.head, body⟩,
      { d with head := next, body := [], written := d.written ++ [⟨d.head, body⟩] }) := by
  simp [chain, hb, hp, commit, production]

/-- A terminal at the end of the body is not taken back. -/
theorem chain_of_terminal {body : List (Symbol L)} {x : Terminal L}
    (hb : d.body = body ++ [.terminal x]) :
    d.chain t = .error (.chainFromOther d.previous.kind d.previous.source t.span) := by
  simp [chain, hb]

/-- Only a name is taken back. -/
theorem kind_of_chain {r : Production L × Draft A L} (h : d.chain t = .ok r) :
    d.previous.kind = .nonterminal := by
  by_cases hb : d.body = []
  · rw [chain_of_nil hb] at h
    cases h
  · by_cases hp : d.previous.kind = .nonterminal
    · exact hp
    · rw [chain_of_ne hb hp] at h
      cases h

/-! ## Following -/

namespace Follows

theorem two_le_length (h : d.Follows meaning before) : 2 ≤ before.length := by
  obtain ⟨first, second, more, rfl, -⟩ := h.opened
  simp

theorem opened_concat (h : d.Follows meaning before) (t : Token) :
    ∃ first second more, before ++ [t] = first :: second :: more ∧
      first.kind = .nonterminal ∧ second.kind = .arrow ∧ d.start = first.source := by
  obtain ⟨first, second, more, rfl, kinds⟩ := h.opened
  exact ⟨first, second, more ++ [t], rfl, kinds⟩

theorem drop_concat (h : d.Follows meaning before) (t : Token) (ahead : List Token) :
    (before ++ [t]).drop 2 ++ ahead = before.drop 2 ++ t :: ahead := by
  obtain ⟨first, second, more, rfl, -⟩ := h.opened
  simp

/-- A word is pushed onto the body. -/
theorem push (h : d.Follows meaning before) (ht : t.kind.isWord = true) {m : Mention}
    (hm : t.mention? = some m) (r : Resolver A L) :
    Follows meaning (before ++ [t])
      { d.push (m.symbol meaning) with previous := t, resolver := r } := by
  obtain ⟨done, head, written, production, cut⟩ := h.reads
  obtain ⟨head_eq, body_eq⟩ := Production.mk.inj production
  have since := sinceBreak_concat before (isBreak_of_isWord ht)
  refine ⟨h.opened_concat t, by simp, ?_, ?_, done, head, written, ?_, ?_⟩
  · rw [since]
    intro u hu
    rcases List.mem_append.mp hu with old | new
    · exact h.words u old
    · obtain rfl := List.mem_singleton.mp new
      exact ht
  · rw [List.countP_append, ← h.count]
    simp [isBreak_of_isWord ht, Draft.push]
  · have one : mentionsOf [t] = [m] := mentionsOf_cons hm []
    show Production.mk d.head (d.body ++ (m.symbol meaning).toList) = _
    rw [head_eq, body_eq, since, mentionsOf_append, one]
    simp only [Rule.production, List.filterMap_append]
    cases h : m.symbol meaning <;> simp [h]
  · intro ahead rules hr
    rw [since, List.append_assoc] at hr
    rw [h.drop_concat]
    exact cut (t :: ahead) rules hr

/-- A break finishes a production and leaves an empty body under the head `head`. -/
theorem of_break (h : d.Follows meaning before) (ht : t.kind.isBreak = true) {d' : Draft A L}
    (done : List Rule) (head : String) (start : d'.start = d.start) (previous : d'.previous = t)
    (count : d'.written.length = d.written.length + 1)
    (written : d'.written = done.map (Rule.production meaning))
    (production : d'.production = ⟨.named head, []⟩)
    (cut : ∀ ahead rules, CutInto head ahead rules →
      CutInto d.start (before.drop 2 ++ t :: ahead) (done ++ rules)) :
    d'.Follows meaning (before ++ [t]) := by
  have since := sinceBreak_concat_of_break before ht
  refine ⟨?_, ?_, ?_, ?_, done, head, written, ?_, ?_⟩
  · rw [start]
    exact h.opened_concat t
  · rw [previous]
    simp
  · rw [since]
    intro u hu
    cases hu
  · rw [List.countP_append, ← h.count, count]
    simp [ht]
  · rw [production, since]
    rfl
  · intro ahead rules hr
    rw [since] at hr
    rw [start, h.drop_concat]
    exact cut ahead rules hr

/-- A bar finishes the body. -/
theorem bar (h : d.Follows meaning before) (ht : t.kind = .bar) :
    Follows meaning (before ++ [t]) { d.commit with previous := t } := by
  obtain ⟨done, head, written, production, cut⟩ := h.reads
  obtain ⟨head_eq, -⟩ := Production.mk.inj production
  refine h.of_break (by rw [ht]; rfl) (done ++ [⟨head, mentionsOf (sinceBreak before)⟩]) head
    rfl rfl (by simp [commit]) ?_ ?_ ?_
  · show d.written ++ [d.production] = _
    rw [written, production, List.map_append, List.map_singleton]
  · show Production.mk d.head [] = _
    rw [head_eq]
  · intro ahead rules hr
    rw [List.append_assoc]
    exact cut _ _ (.bar h.words ht hr)

/-- The body is empty when all its words are fragments that left nothing. -/
theorem body_eq_nil_iff (h : d.Follows meaning before) :
    d.body = [] ↔ ∀ u ∈ sinceBreak before, u.kind = .fragment ∧ meaning u.source = none := by
  obtain ⟨done, head, -, production, -⟩ := h.reads
  obtain ⟨-, body_eq⟩ := Production.mk.inj production
  rw [body_eq, mentionsOf, List.filterMap_filterMap, List.filterMap_eq_nil_iff]
  refine forall₂_congr ?_
  intro u hu
  have word : u.kind = .nonterminal ∨ u.kind = .fragment := by
    simpa [TokenKind.isWord] using h.words u hu
  rcases word with hk | hk
  · rw [mention?_of_nonterminal hk]
    simp [Mention.symbol, hk]
  · rw [mention?_of_fragment hk]
    simp [Mention.symbol, hk]

/-- The words of the body stand behind the first arrow. -/
theorem mem_drop_of_mem_sinceBreak (h : d.Follows meaning before) {u : Token}
    (hu : u ∈ sinceBreak before) : u ∈ before.drop 2 := by
  obtain ⟨first, second, more, rfl, -, hs, -⟩ := h.opened
  have breaks : second.kind.isBreak = true := by rw [hs]; rfl
  rw [← List.singleton_append, sinceBreak_append_cons [first] more breaks] at hu
  exact mem_of_mem_sinceBreak hu

/-- The last token is a word of the body, unless it is a break. -/
theorem sinceBreak_eq (h : d.Follows meaning before) (hp : d.previous.kind.isBreak = false) :
    ∃ words, sinceBreak before = words ++ [d.previous] := by
  obtain ⟨pre, rfl⟩ := List.getLast?_eq_some_iff.mp h.previous
  exact ⟨sinceBreak pre, sinceBreak_concat _ hp⟩

/-- A name that was read last ends the body. -/
theorem body_eq_concat (h : d.Follows meaning before) (hp : d.previous.kind = .nonterminal) :
    ∃ words, sinceBreak before = words ++ [d.previous] ∧
      d.body = (mentionsOf words).filterMap (·.symbol meaning) ++
        [.nonterminal (.named d.previous.source)] := by
  obtain ⟨done, head, -, production, -⟩ := h.reads
  obtain ⟨-, body_eq⟩ := Production.mk.inj production
  obtain ⟨words, last⟩ := h.sinceBreak_eq (by rw [hp]; rfl)
  have one : mentionsOf [d.previous] = [.name d.previous.source] :=
    mentionsOf_cons (mention?_of_nonterminal hp) []
  rw [last, mentionsOf_append, one, List.filterMap_append] at body_eq
  exact ⟨words, last, body_eq⟩

/-- An arrow behind a name finishes the body without that name. -/
theorem arrow (h : d.Follows meaning before) (hp : d.previous.kind = .nonterminal)
    (ht : t.kind = .arrow) :
    ∃ p d', d.chain t = .ok (p, d') ∧ d'.resolver = d.resolver ∧
      Follows meaning (before ++ [t]) { d' with previous := t } := by
  obtain ⟨done, head, written, production, cut⟩ := h.reads
  obtain ⟨head_eq, -⟩ := Production.mk.inj production
  -- the name that the arrow takes back ends the segment
  obtain ⟨words, last, body_eq⟩ := h.body_eq_concat hp
  have isWord : ∀ u ∈ words, u.kind.isWord = true := by
    intro u hu
    refine h.words u ?_
    rw [last]
    exact List.mem_append_left _ hu
  refine ⟨_, _, chain_of_concat body_eq hp, rfl,
    h.of_break (by rw [ht]; rfl) (done ++ [⟨head, mentionsOf words⟩]) d.previous.source
      rfl rfl (by simp) ?_ rfl ?_⟩
  · rw [written, head_eq, List.map_append, List.map_singleton]
    rfl
  · intro ahead rules hr
    have step := cut (t :: ahead) (⟨head, mentionsOf words⟩ :: rules)
    rw [last, List.append_assoc] at step
    rw [List.append_assoc]
    exact step (.arrow isWord hp ht hr)

/-- The end of the text finishes the last body, and with it the cut. -/
theorem finish (h : d.Follows meaning before) (ht : t.kind = .stop) :
    ∃ rules, CutInto d.start (before.drop 2 ++ [t]) rules ∧
      d.finish.productions = rules.map (Rule.production meaning) := by
  obtain ⟨done, head, written, production, cut⟩ := h.reads
  refine ⟨done ++ [⟨head, mentionsOf (sinceBreak before)⟩], cut _ _ (.last h.words ht), ?_⟩
  show d.written ++ [d.production] = _
  rw [written, production, List.map_append, List.map_singleton]

/-- There are as many productions as bars and arrows, the arrow of the first rule included. -/
theorem length_finish (h : d.Follows meaning before) :
    d.finish.productions.length = before.countP (·.kind.isBreak) := by
  rw [← h.count]
  show (d.written ++ [d.production]).length = _
  rw [List.length_append, List.length_singleton]

end Follows

end Draft

end FragmentGrammar
