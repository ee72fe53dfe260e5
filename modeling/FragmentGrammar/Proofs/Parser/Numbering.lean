import FragmentGrammar.Proofs.Embedding.Names
import FragmentGrammar.Proofs.Parser.Concatenation
import FragmentGrammar.Proofs.Resolver.History

/-! # Names and numbers of a parsed grammar

    The bodies that are written mention automata by number, and a number is given to a
    fragment where it is first met.  So the numbers first occur in order in the written
    productions, each of them does, and behind these productions come as many blocks
    (`parse_numbered`).  Written heads are names of the source and a block has no names
    but its own, so no production is taken for one of another block. -/

namespace FragmentGrammar

variable {σ E A L : Type}

/-- The number of the automaton that is entered, if the symbol says so. -/
def Symbol.entry? : Symbol L → Option Nat
  | .nonterminal (.entry id) => some id
  | _ => none

/-- The numbers of the automata that a body mentions, in order. -/
def Production.entries (p : Production L) : List Nat :=
  p.body.filterMap Symbol.entry?

/-- The numbers of the automata that a body refers to. -/
theorem mem_entries {p : Production L} {id : Nat} :
    id ∈ p.entries ↔ .nonterminal (.entry id) ∈ p.body := by
  rw [Production.entries, List.mem_filterMap]
  constructor
  · rintro ⟨x, hx, h⟩
    rcases x with (name | i | ⟨i, q⟩) | t
    · cases h
    · obtain rfl : i = id := Option.some.inj h
      exact hx
    · cases h
    · cases h
  · intro h
    exact ⟨_, h, rfl⟩

/-! ## Fragments of rules -/

section Fragments

variable {t : Token} {ts : List Token}

/-- The text of the fragment, if a fragment is mentioned. -/
def Mention.fragment? : Mention → Option String
  | .name _ => none
  | .fragment text => some text

theorem fragmentTexts_cons (h : t.kind = .fragment) (ts : List Token) :
    fragmentTexts (t :: ts) = t.source :: fragmentTexts ts := by
  simp [fragmentTexts, h]

theorem fragmentTexts_cons_of_ne (h : t.kind ≠ .fragment) (ts : List Token) :
    fragmentTexts (t :: ts) = fragmentTexts ts := by
  simp [fragmentTexts, h]

theorem fragment?_mentionsOf (ts : List Token) :
    (mentionsOf ts).filterMap Mention.fragment? = fragmentTexts ts := by
  induction ts with
  | nil => rfl
  | cons t ts ih =>
      by_cases hk : t.kind = .fragment
      · rw [mentionsOf_cons (mention?_of_fragment hk), fragmentTexts_cons hk, ← ih]
        rfl
      · rw [fragmentTexts_cons_of_ne hk, ← ih, mentionsOf, List.filterMap_cons]
        -- any other token mentions no fragment
        cases hm : t.mention? with
        | none => rfl
        | some m =>
            cases m with
            | name name => rfl
            | fragment text => cases hk' : t.kind <;> simp_all [Token.mention?]

/-- The fragments of all rules of a stream are its fragments, in order. -/
theorem CutInto.fragment?_rules {head : String} {rules : List Rule} (h : CutInto head ts rules) :
    (rules.flatMap fun r => r.body.filterMap Mention.fragment?) = fragmentTexts ts := by
  induction h with
  | @last _ segment stop _ hs =>
      rw [List.flatMap_singleton, fragment?_mentionsOf, fragmentTexts_append,
        fragmentTexts_cons_of_ne (by simp [hs])]
      exact (List.append_nil _).symm
  | bar _ hb _ ih =>
      rw [List.flatMap_cons, ih, fragment?_mentionsOf, fragmentTexts_append,
        fragmentTexts_cons_of_ne (by simp [hb])]
  | arrow _ hn ha _ ih =>
      rw [List.flatMap_cons, ih, fragment?_mentionsOf, fragmentTexts_append,
        fragmentTexts_cons_of_ne (by simp [hn]), fragmentTexts_cons_of_ne (by simp [ha])]

/-- The numbers in the production of a rule are those that its fragments leave. -/
theorem entries_production (meaning : String → Option (Symbol L)) (r : Rule) :
    (r.production meaning).entries = (r.body.filterMap Mention.fragment?).filterMap
      fun text => (meaning text).bind Symbol.entry? := by
  show (r.body.filterMap _).filterMap _ = _
  rw [List.filterMap_filterMap, List.filterMap_filterMap]
  refine List.filterMap_congr ?_
  intro m _
  cases m <;> rfl

end Fragments

/-! ## Numbers that fragments leave -/

section Numbers

variable [Automaton A L] [Label L] {known : List (String × A)} {text : String} {a : A}

/-- A fragment leaves a terminal, a number or nothing. -/
theorem eq_entry_of_symbolOf {n : Nonterminal}
    (h : symbolOf (L := L) known text = some (.nonterminal n)) : ∃ id, n = .entry id := by
  cases hk : known.lookup text with
  | none => simp [symbolOf, hk] at h
  | some a =>
      cases hv : (Verdict.of a : Verdict L) with
      | vanishes => simp [symbolOf_of_vanishes hk hv] at h
      | terminal l => simp [symbolOf_of_terminal hk hv] at h
      | embeds =>
          rw [symbolOf_of_embeds hk hv] at h
          exact ⟨_, (Symbol.nonterminal.inj (Option.some.inj h)).symm⟩

/-- The texts that are embedded, in the order of their numbers. -/
def embeddedTexts (known : List (String × A)) : List String :=
  (embeddedOf known).map (·.1)

/-- There is one number for each embedded automaton. -/
theorem length_embeddedTexts (known : List (String × A)) :
    (embeddedTexts known).length = (embeddedOf known).length :=
  List.length_map _

variable (distinct : (known.map (·.1)).Nodup)
include distinct

/-- No fragment has two numbers. -/
theorem nodup_embeddedTexts : (embeddedTexts known).Nodup :=
  distinct.sublist (List.filter_sublist.map _)

/-- A known fragment leaves its place among those that are embedded, if it is one of
    them. -/
theorem entry?_symbolOf (h : known.lookup text = some a) :
    (symbolOf known text).bind Symbol.entry? =
      if text ∈ embeddedTexts known then some ((embeddedTexts known).idxOf text) else none := by
  by_cases mem : text ∈ embeddedTexts known
  · obtain ⟨id, found⟩ := List.getElem?_of_mem mem
    have place := idxOf_of_getElem? (nodup_embeddedTexts distinct) found
    rw [embeddedTexts, List.getElem?_map] at found
    obtain ⟨⟨_, b⟩, embedded, rfl⟩ := Option.map_eq_some_iff.mp found
    obtain ⟨-, -, symbol⟩ := symbolOf_of_getElem? distinct embedded
    rw [if_pos mem, place, symbol]
    rfl
  · rw [if_neg mem]
    cases hv : (Verdict.of a : Verdict L) with
    | vanishes =>
        rw [symbolOf_of_vanishes h hv]
        rfl
    | terminal l =>
        rw [symbolOf_of_terminal h hv]
        rfl
    | embeds => exact absurd (List.mem_map_of_mem (mem_embeddedOf_of_lookup h hv)) mem

/-- The texts that are embedded are picked from those that are known. -/
theorem filter_mem_embeddedTexts :
    (known.map (·.1)).filter (· ∈ embeddedTexts known) = embeddedTexts known := by
  rw [List.filter_map, embeddedTexts]
  congr 1
  refine List.filter_congr ?_
  intro x hx
  rw [Bool.eq_iff_iff]
  constructor
  · intro mem
    obtain ⟨y, hy, same⟩ := List.mem_map.mp (of_decide_eq_true mem)
    -- no other automaton is known under this text
    have once : y = x :=
      List.inj_on_of_nodup_map distinct (List.mem_of_mem_filter hy) hx same
    rw [once] at hy
    exact (List.mem_filter.mp hy).2
  · intro embeds
    exact decide_eq_true (List.mem_map_of_mem (List.mem_filter.mpr ⟨hx, embeds⟩))

/-- The numbers that fragments leave first occur in order, and none is missing, where the
    automata of just these fragments are known. -/
theorem eraseDups_entries {texts : List String} (whole : known.map (·.1) = texts.eraseDups) :
    (texts.filterMap fun text => (symbolOf (L := L) known text).bind Symbol.entry?).eraseDups =
      List.range (embeddedOf known).length := by
  have embedded : (texts.filter (· ∈ embeddedTexts known)).eraseDups = embeddedTexts known := by
    rw [eraseDups_filter, ← whole]
    exact filter_mem_embeddedTexts distinct
  have numbers : (texts.filterMap fun text => (symbolOf (L := L) known text).bind Symbol.entry?) =
      (texts.filter (· ∈ embeddedTexts known)).map (embeddedTexts known).idxOf := by
    rw [← List.filterMap_eq_map, List.filterMap_filter]
    refine List.filterMap_congr ?_
    intro text ht
    have mem : text ∈ known.map (·.1) := by
      rw [whole, List.mem_eraseDups]
      exact ht
    obtain ⟨x, hx, rfl⟩ := List.mem_map.mp mem
    rw [entry?_symbolOf distinct (lookup_of_mem distinct hx)]
    by_cases h : x.1 ∈ embeddedTexts known
    · rw [if_pos h, if_pos (decide_eq_true h)]
      rfl
    · rw [if_neg h, if_neg fun h' => h (of_decide_eq_true h')]
  have places := eraseDups_map_idxOf (texts.filter (· ∈ embeddedTexts known))
  rw [embedded, length_embeddedTexts] at places
  rw [numbers, places]

end Numbers

/-! ## Parsed grammars -/

variable [Automaton A L] [Label L] {c : Compiler σ E A} {source : String} {s : σ}

/-- What is written mentions its automata soundly: names and numbers are kept apart, and
    the numbers are those of the recorded automata. -/
structure Numbered (w : Written A L) : Prop where
  /-- Written heads are names of the source. -/
  heads : ∀ p ∈ w.productions, ∃ name, p.head = .named name
  /-- Written bodies hold names of the source and entries, besides terminals. -/
  bodies : ∀ p ∈ w.productions, ∀ n, .nonterminal n ∈ p.body →
    (∃ name, n = .named name) ∨ ∃ id, n = .entry id
  /-- The numbers first occur in order in the written bodies, and none is missing. -/
  order : (w.productions.flatMap Production.entries).eraseDups = List.range w.recorded.length
  /-- The automata are recorded in the order of their numbers. -/
  numbers : w.recorded.map (·.1) = List.range w.recorded.length
  /-- A block uses no names but its own. -/
  blocks : ∀ r ∈ w.recorded, ∀ p ∈ embed r.1 r.2,
    InBlock r.1 r.2 p.head ∧ ∀ n, .nonterminal n ∈ p.body → InBlock r.1 r.2 n
  /-- No written head belongs to a block, and no head of a block to another one. -/
  apart : (∀ p ∈ w.productions, p.head.block? = none) ∧
    ∀ r ∈ w.recorded, ∀ r' ∈ w.recorded, ∀ p ∈ embed r.1 r.2, p.head.block? = some r'.1 → r' = r
  /-- Every automaton is mentioned in a written body. -/
  referenced : ∀ r ∈ w.recorded, ∃ p ∈ w.productions, .nonterminal (.entry r.1) ∈ p.body

/-- The numbers in what is written for an accepted source first occur in order. -/
theorem read_entries {w : Written A L} (h : (read c source s).result = .ok w) :
    (w.productions.flatMap Production.entries).eraseDups = List.range w.recorded.length := by
  obtain ⟨first, second, rest, rules, split, -, -, cut, -, productions⟩ := read_writes h
  obtain ⟨⟨s', consulted⟩, recorded⟩ := read_consulted h
  have whole : (c.automata (tokens source) s).map (·.1) = (fragmentTexts rest).eraseDups := by
    rw [consulted.map_fst_automata, split, fragmentsOf_eq]
    rfl
  have distinct : ((c.automata (tokens source) s).map (·.1)).Nodup := by
    rw [whole]
    exact nodup_eraseDups _
  have entries : w.productions.flatMap Production.entries = (fragmentTexts rest).filterMap
      fun text => (symbolOf (c.automata (tokens source) s) text).bind Symbol.entry? := by
    rw [productions, List.flatMap_map, ← cut.fragment?_rules, List.filterMap_flatMap]
    exact congrArg (rules.flatMap ·) (funext (entries_production _))
  rw [entries, eraseDups_entries distinct whole, recorded, length_recorded_knowing]

/-- What is written for an accepted source mentions its automata soundly. -/
theorem read_numbered {w : Written A L} (h : (read c source s).result = .ok w) : Numbered w := by
  obtain ⟨first, second, rest, rules, split, -, -, cut, -, productions⟩ := read_writes h
  obtain ⟨⟨s', consulted⟩, recorded⟩ := read_consulted h
  have order := read_entries h
  have heads : ∀ p ∈ w.productions, ∃ name, p.head = .named name := by
    intro p hp
    rw [productions] at hp
    obtain ⟨r, -, rfl⟩ := List.mem_map.mp hp
    exact ⟨r.head, rfl⟩
  have numbers : w.recorded.map (·.1) = List.range w.recorded.length := by
    rw [recorded]
    exact map_fst_recorded _
  have blocks : ∀ r ∈ w.recorded, ∀ p ∈ embed r.1 r.2,
      InBlock r.1 r.2 p.head ∧ ∀ n, .nonterminal n ∈ p.body → InBlock r.1 r.2 n :=
    fun _ _ _ hp => inBlock_of_mem_embed hp
  refine ⟨heads, ?_, order, numbers, blocks, ⟨?_, ?_⟩, ?_⟩
  · intro p hp n hn
    rw [productions] at hp
    obtain ⟨r, -, rfl⟩ := List.mem_map.mp hp
    obtain ⟨m, -, hm⟩ := List.mem_filterMap.mp hn
    cases m with
    | name name =>
        obtain rfl : .named name = n := Symbol.nonterminal.inj (Option.some.inj hm)
        exact .inl ⟨name, rfl⟩
    | fragment text => exact .inr (eq_entry_of_symbolOf hm)
  · intro p hp
    obtain ⟨name, head⟩ := heads p hp
    rw [head]
    rfl
  · intro r hr r' hr' p hp same
    rw [(blocks r hr p hp).1.block?] at same
    rw [recorded] at hr hr'
    exact eq_of_mem_recorded hr hr' (Option.some.inj same).symm
  · intro r hr
    have number : r.1 ∈ List.range w.recorded.length := by
      rw [← numbers]
      exact List.mem_map_of_mem hr
    rw [← order, List.mem_eraseDups] at number
    obtain ⟨p, hp, entry⟩ := List.mem_flatMap.mp number
    exact ⟨p, hp, mem_entries.mp entry⟩

/-- A parsed grammar is what is written in its source and behind it a block for every
    automaton that is recorded.  Only the automata that are mentioned are recorded, the
    numbers first occur in order, and names and blocks are kept apart. -/
theorem parse_numbered {g : Grammar L} (h : (parse c source s).result = .ok g) :
    ∃ w : Written A L, (read c source s).result = .ok w ∧
      g.productions = w.productions ++ w.recorded.flatMap (fun r => embed r.1 r.2) ∧
      Numbered w := by
  obtain ⟨w, hw, rfl⟩ := parse_eq_ok_iff.mp h
  refine ⟨w, hw, ?_, read_numbered hw⟩
  show w.productions ++ w.embedded = _
  rw [w.embedded_eq]

/-- Three automata, the first of them mentioned twice. -/
theorem parse_numbered_loops :
    ∃ w : Written (ListedAutomaton CaseBlind) CaseBlind,
      (read (.ofFunction loops) "S -> b T T -> b a | c" ()).result = .ok w ∧
      w.recorded.map (·.1) = [0, 1, 2] ∧
      (w.productions.flatMap Production.entries).eraseDups = [0, 1, 2] ∧ Numbered w := by
  have byText : (Compiler.ofFunction loops).AnswersBy loops := fun _ _ => rfl
  have total (text : String) (s : Unit) : ∃ a, (Compiler.ofFunction loops text s).1 = .ok a :=
    ⟨_, rfl⟩
  obtain ⟨g, h⟩ := exists_parse_ok (by decide +kernel : Orderly (tokens "S -> b T T -> b a | c"))
    (consult_ok total _ ())
  have ids : embeddedBy loops (tokens "S -> b T T -> b a | c") = ["b", "a", "c"] := by
    rw [embeddedBy_loops (by decide +kernel)]
    decide +kernel
  obtain ⟨w, hw, -, numbered⟩ := parse_numbered h
  obtain ⟨_, _, _, _, -, -, -, -, -, rfl⟩ := (read_eq_ok_iff byText).mp hw
  have three : (numberedBy loops 0 (embeddedBy loops (tokens "S -> b T T -> b a | c"))).length =
      3 := by
    rw [ids]
    rfl
  have order := numbered.order
  have numbers := numbered.numbers
  rw [three] at order numbers
  exact ⟨_, hw, numbers, order, numbered⟩

end FragmentGrammar
