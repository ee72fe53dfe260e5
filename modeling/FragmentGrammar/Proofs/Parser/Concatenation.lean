import FragmentGrammar.Proofs.Lexer.Joined
import FragmentGrammar.Proofs.Parser.ByText

/-! # Sources written one behind the other

    Where a compiler answers by the text, two sources with blanks between them write what
    the first writes and then what the second does.  The only thing that changes is the
    numbering of automata: a fragment that both embed keeps its number from the first
    source, and the others of the second are numbered from there on (`parse_append`).
    The end of the first source becomes the place before a name and an arrow, which ends
    a rule just as well (`CutInto.append`). -/

namespace FragmentGrammar

variable {σ E A L : Type}

/-! ## Renumbered productions -/

/-- The nonterminal with the number of its automaton, if it has one, replaced. -/
def Nonterminal.renumber (ρ : Nat → Nat) : Nonterminal → Nonterminal
  | named name => named name
  | entry id => entry (ρ id)
  | state id q => state (ρ id) q

/-- The symbol with the number of its automaton, if it has one, replaced. -/
def Symbol.renumber (ρ : Nat → Nat) : Symbol L → Symbol L
  | nonterminal n => nonterminal (n.renumber ρ)
  | terminal t => terminal t

theorem Symbol.renumber_id : (Symbol.renumber id : Symbol L → Symbol L) = id := by
  funext s
  rcases s with (_ | _ | _) | _ <;> rfl

/-- The production with the numbers of all automata replaced. -/
def Production.renumber (ρ : Nat → Nat) (p : Production L) : Production L :=
  ⟨p.head.renumber ρ, p.body.map (Symbol.renumber ρ)⟩

/-- Renumbering the production of a rule is renumbering what its fragments leave. -/
theorem Rule.renumber_production (ρ : Nat → Nat) (meaning : String → Option (Symbol L))
    (r : Rule) :
    (r.production meaning).renumber ρ =
      r.production fun text => (meaning text).map (Symbol.renumber ρ) := by
  show Production.mk _ (List.map _ (List.filterMap _ _)) = Production.mk _ (List.filterMap _ _)
  rw [List.map_filterMap]
  congr 2
  funext m
  cases m <;> rfl

/-! ## Cut streams -/

section Cut

variable {head : String} {ts us : List Token} {rules more : List Rule}

theorem mentionsOf_shift (n : Nat) (ts : List Token) :
    mentionsOf (ts.map (Token.shift n)) = mentionsOf ts := by
  rw [mentionsOf, List.filterMap_map]
  rfl

/-- Where the tokens stand does not matter for their rules. -/
theorem CutInto.shift (h : CutInto head ts rules) (n : Nat) :
    CutInto head (ts.map (Token.shift n)) rules := by
  have moved {segment : List Token} (words : ∀ t ∈ segment, t.kind.isWord = true) :
      ∀ t ∈ segment.map (Token.shift n), t.kind.isWord = true := by
    intro t ht
    obtain ⟨u, hu, rfl⟩ := List.mem_map.mp ht
    exact words u hu
  induction h with
  | last words hs =>
      rw [List.map_append, ← mentionsOf_shift n]
      exact .last (moved words) hs
  | bar words hb _ ih =>
      rw [List.map_append, ← mentionsOf_shift n]
      exact .bar (moved words) hb ih
  | arrow words hn ha _ ih =>
      rw [List.map_append, ← mentionsOf_shift n]
      exact .arrow (moved words) hn ha ih

/-- A cut stream comes to its end. -/
theorem CutInto.exists_concat (h : CutInto head ts rules) :
    ∃ front last, ts = front ++ [last] ∧ last.kind = .stop := by
  induction h with
  | @last _ segment stop _ hs => exact ⟨segment, stop, rfl, hs⟩
  | @bar _ segment _ bar _ _ _ _ ih =>
      obtain ⟨front, last, rfl, hs⟩ := ih
      exact ⟨segment ++ bar :: front, last, by simp, hs⟩
  | @arrow _ segment _ next arrow _ _ _ _ _ ih =>
      obtain ⟨front, last, rfl, hs⟩ := ih
      exact ⟨segment ++ next :: arrow :: front, last, by simp, hs⟩

/-- The end of a cut stream may give way to a name and an arrow, behind which another
    cut stream goes on. -/
theorem CutInto.append {stop next arrow : Token} (h : CutInto head (ts ++ [stop]) rules)
    (hn : next.kind = .nonterminal) (ha : arrow.kind = .arrow)
    (h' : CutInto next.source us more) :
    CutInto head (ts ++ next :: arrow :: us) (rules ++ more) := by
  generalize hl : ts ++ [stop] = whole at h
  induction h generalizing ts with
  | last words _ =>
      obtain ⟨rfl, -⟩ := List.append_inj' hl rfl
      exact .arrow words hn ha h'
  | @bar _ segment rest bar _ words hb cut ih =>
      obtain ⟨front, last, rfl, -⟩ := cut.exists_concat
      rw [← List.cons_append, ← List.append_assoc] at hl
      obtain ⟨rfl, same⟩ := List.append_inj' hl rfl
      rw [List.append_assoc]
      exact .bar words hb (ih (congrArg (front ++ ·) same))
  | @arrow _ segment rest name between _ words hn' ha' cut ih =>
      obtain ⟨front, last, rfl, -⟩ := cut.exists_concat
      rw [← List.cons_append, ← List.cons_append, ← List.append_assoc] at hl
      obtain ⟨rfl, same⟩ := List.append_inj' hl rfl
      rw [List.append_assoc]
      exact .arrow words hn' ha' (ih (congrArg (front ++ ·) same))

end Cut

/-! ## Fragments of joined streams -/

theorem fragmentTexts_shift (n : Nat) (ts : List Token) :
    fragmentTexts (ts.map (Token.shift n)) = fragmentTexts ts := by
  rw [fragmentTexts, List.filter_map, List.map_map]
  rfl

/-- Behind the fragments of a stream come those of the next one that are new, the two
    streams being joined without the end of the first. -/
theorem fragmentsOf_append {first second stop : Token} {ts : List Token}
    (long : 2 ≤ ts.length) (hs : stop.kind = .stop) (hf : first.kind = .nonterminal)
    (ha : second.kind = .arrow) (n : Nat) (us : List Token) :
    fragmentsOf (ts ++ (first :: second :: us).map (Token.shift n)) =
      fragmentsOf (ts ++ [stop]) ++
        (fragmentsOf (first :: second :: us)).filter (· ∉ fragmentsOf (ts ++ [stop])) := by
  have skipped : fragmentTexts (first :: second :: us) = fragmentTexts us := by
    simp [fragmentTexts, hf, ha]
  rw [fragmentsOf_concat_of_ne ts (by simp [hs]), fragmentsOf_eq, List.drop_append_of_le_length long,
    fragmentTexts_append, fragmentTexts_shift, skipped, List.eraseDups_append, List.removeAll,
    eraseDups_filter]
  congr 1
  refine List.filter_congr fun text _ => ?_
  simp [fragmentsOf_eq, List.mem_eraseDups]

/-! ## New numbers -/

/-- The numbers `ρ i` of the fragments `ids'` when they come behind the fragments `ids`:
    a fragment that is among those keeps the number that it has there, and the others are
    numbered on in their order, so that no two share a number. -/
structure Renumbers (ids ids' : List String) (ρ : Nat → Nat) : Prop where
  keeps {i j : Nat} {text : String} : ids'[i]? = some text → ids[j]? = some text → ρ i = j
  goesOn {i k : Nat} {text : String} : ids'[i]? = some text →
    (ids'.filter (· ∉ ids))[k]? = some text → ρ i = ids.length + k
  injective {i j : Nat} : i < ids'.length → j < ids'.length → ρ i = ρ j → i = j

/-- The number of the `i`-th fragment of `ids'` when they come behind `ids`. -/
def renumbering (ids ids' : List String) (i : Nat) : Nat :=
  match ids'[i]? with
  | some text => (ids ++ ids'.filter (· ∉ ids)).idxOf text
  | none => i

section Renumbering

variable {ids ids' : List String} {i j : Nat} {text : String}

theorem renumbering_of_getElem? (h : ids'[i]? = some text) :
    renumbering ids ids' i = (ids ++ ids'.filter (· ∉ ids)).idxOf text := by
  rw [renumbering, h]

theorem mem_append_fresh (h : text ∈ ids') : text ∈ ids ++ ids'.filter (· ∉ ids) := by
  by_cases known : text ∈ ids
  · exact List.mem_append_left _ known
  · exact List.mem_append_right _ (List.mem_filter.mpr ⟨h, by simpa using known⟩)

theorem renumbers_renumbering (nodup : ids.Nodup) (nodup' : ids'.Nodup) :
    Renumbers ids ids' (renumbering ids ids') where
  keeps h hj := by
    rw [renumbering_of_getElem? h, List.idxOf_append_of_mem (List.mem_of_getElem? hj)]
    exact idxOf_of_getElem? nodup hj
  goesOn h hk := by
    have new := (List.mem_filter.mp (List.mem_of_getElem? hk)).2
    rw [renumbering_of_getElem? h, List.idxOf_append_of_notMem (by simpa using new),
      idxOf_of_getElem? (nodup'.filter _) hk]
  injective {i j} hi hj same := by
    have at_i := List.getElem?_eq_getElem hi
    have at_j := List.getElem?_eq_getElem hj
    rw [renumbering_of_getElem? at_i, renumbering_of_getElem? at_j,
      List.idxOf_inj (mem_append_fresh (List.mem_of_getElem? at_i))] at same
    exact nodup'.getElem_inj_iff.mp same

end Renumbering

/-! ## Joined sources -/

section Joined

variable [Automaton A L] [Label L] {f : String → Except E A} {ids ids' : List String}
  {text : String}

/-- A fragment leaves the same symbol, renumbered, where its number is. -/
theorem symbolBy_map {ρ : Nat → Nat}
    (h : embeds f text = true → ids.idxOf text = ρ (ids'.idxOf text)) :
    symbolBy f ids text = (symbolBy (L := L) f ids' text).map (Symbol.renumber ρ) := by
  cases hf : f text with
  | error e =>
      rw [symbolBy, symbolBy, hf]
      rfl
  | ok a =>
      cases hv : (Verdict.of a : Verdict L) with
      | vanishes =>
          rw [symbolBy_of_vanishes hf hv, symbolBy_of_vanishes hf hv]
          rfl
      | terminal l =>
          rw [symbolBy_of_terminal hf hv, symbolBy_of_terminal hf hv]
          rfl
      | embeds =>
          have same := h (embeds_iff.mpr ⟨a, hf, by rw [hv]; rfl⟩)
          rw [symbolBy_of_embeds hf hv, symbolBy_of_embeds hf hv, same]
          rfl

/-- The number of an embedded fragment goes by the fragments up to it. -/
theorem symbolBy_append (h : embeds f text = true → text ∈ ids) (more : List String) :
    symbolBy (L := L) f (ids ++ more) text = symbolBy f ids text := by
  have place (embedded : embeds f text = true) : (ids ++ more).idxOf text = id (ids.idxOf text) :=
    List.idxOf_append_of_mem (h embedded)
  have same := symbolBy_map (L := L) place
  rwa [Symbol.renumber_id, Option.map_id] at same

/-- Behind other fragments a fragment leaves the same symbol, renumbered. -/
theorem symbolBy_renumber (h : embeds f text = true → text ∈ ids') :
    symbolBy f (ids ++ ids'.filter (· ∉ ids)) text =
      (symbolBy (L := L) f ids' text).map (Symbol.renumber (renumbering ids ids')) :=
  symbolBy_map fun embedded =>
    (renumbering_of_getElem? (List.getElem?_idxOf (h embedded))).symm

/-- A stream that writes something comes to its end. -/
theorem WrittenBy.exists_concat {ts : List Token} {w : Written A L} (h : WrittenBy f ts w) :
    ∃ front stop, ts = front ++ [stop] ∧ stop.kind = .stop := by
  obtain ⟨first, second, rest, rules, rfl, -, -, cut, -⟩ := h
  obtain ⟨front, stop, rfl, hs⟩ := cut.exists_concat
  exact ⟨first :: second :: front, stop, rfl, hs⟩

/-- Behind the embedded fragments of a stream come those of the next one that are new. -/
theorem embeddedBy_append {ts us joined : List Token}
    (h : fragmentsOf joined = fragmentsOf ts ++ (fragmentsOf us).filter (· ∉ fragmentsOf ts)) :
    embeddedBy f joined =
      embeddedBy f ts ++ (embeddedBy f us).filter (· ∉ embeddedBy f ts) := by
  rw [embeddedBy, h, List.filter_append, embeddedBy, embeddedBy, List.filter_filter,
    List.filter_filter]
  congr 1
  refine List.filter_congr fun text _ => ?_
  cases he : embeds f text with
  | false => simp
  | true => simp [List.mem_filter, he]

/-- What two streams write, the second moved behind the first in place of its end. -/
theorem WrittenBy.append {ts us : List Token} {stop : Token} {w w' : Written A L}
    (h : WrittenBy f (ts ++ [stop]) w) (h' : WrittenBy f us w') (n : Nat) :
    let ids := embeddedBy f (ts ++ [stop])
    let fresh := (embeddedBy f us).filter (· ∉ ids)
    WrittenBy f (ts ++ us.map (Token.shift n))
      ⟨w.start,
        w.productions ++ w'.productions.map (Production.renumber (renumbering ids (embeddedBy f us))),
        w.recorded ++ numberedBy f ids.length fresh⟩ := by
  intro ids fresh
  obtain ⟨first, second, rest, rules, split, hf, ha, cut, answered, rfl⟩ := h
  obtain ⟨next, arrow, rest', rules', rfl, hn, ha', cut', answered', rfl⟩ := h'
  -- the end of the first stream is the one of its cut
  obtain ⟨front, last, rfl, hs⟩ := cut.exists_concat
  rw [← List.cons_append, ← List.cons_append] at split
  obtain ⟨rfl, same⟩ := List.append_inj' split rfl
  obtain rfl : stop = last := by simpa using same
  have long : 2 ≤ (first :: second :: front).length := by simp
  have fragments := fragmentsOf_append long hs hn ha' n rest'
  have embedded : embeddedBy f (first :: second :: front ++
      (next :: arrow :: rest').map (Token.shift n)) = ids ++ fresh := embeddedBy_append fragments
  refine ⟨first, second, _, rules ++ rules', rfl, hf, ha,
    cut.append hn ha' (cut'.shift n), ?_, ?_⟩
  · intro text asked
    rw [fragments] at asked
    rcases List.mem_append.mp asked with old | new
    · exact answered text old
    · exact answered' text (List.mem_of_mem_filter new)
  · rw [embedded]
    have front_same : rules.map (Rule.production (symbolBy (L := L) f ids)) =
        rules.map (Rule.production (symbolBy f (ids ++ fresh))) := by
      refine List.map_congr_left fun r hr => Rule.production_congr fun text hm => ?_
      exact (symbolBy_append (mem_embeddedBy (cut.mem_fragmentsOf hr hm)) fresh).symm
    have behind : (rules'.map (Rule.production (symbolBy (L := L) f
          (embeddedBy f (next :: arrow :: rest'))))).map
          (Production.renumber (renumbering ids (embeddedBy f (next :: arrow :: rest')))) =
        rules'.map (Rule.production (symbolBy f (ids ++ fresh))) := by
      rw [List.map_map]
      refine List.map_congr_left fun r hr => ?_
      refine (Rule.renumber_production ..).trans (Rule.production_congr fun text hm => ?_)
      exact (symbolBy_renumber (mem_embeddedBy (cut'.mem_fragmentsOf hr hm))).symm
    rw [front_same, behind, List.map_append, numberedBy_append embeds_of_mem_embeddedBy,
      Nat.zero_add]

/-- Two accepted sources with blanks between them are accepted together.  What is written
    in them is what is written in the first and then in the second, whose automata are
    renumbered: a fragment that both embed keeps its number from the first, and the others
    are recorded and numbered on where they first occur. -/
theorem parse_append {c : Compiler σ E A} (byText : c.AnswersBy f)
    {source next between : String} {s s' : σ} {g g' : Grammar L}
    (h : (parse c source s).result = .ok g) (h' : (parse c next s').result = .ok g')
    (blank : ∀ d ∈ between.toList, isBlank d = true) (apart : between ≠ "") (s'' : σ) :
    ∃ (w w' joined : Written A L) (ρ : Nat → Nat),
      (read c source s).result = .ok w ∧ g = w.grammar ∧ WrittenBy f (tokens source) w ∧
      (read c next s').result = .ok w' ∧ g' = w'.grammar ∧ WrittenBy f (tokens next) w' ∧
      (read c (source ++ between ++ next) s'').result = .ok joined ∧
      (parse c (source ++ between ++ next) s'').result = .ok joined.grammar ∧
      joined.start = w.start ∧
      Renumbers (embeddedBy f (tokens source)) (embeddedBy f (tokens next)) ρ ∧
      joined.productions = w.productions ++ w'.productions.map (Production.renumber ρ) ∧
      joined.recorded = w.recorded ++ numberedBy f (embeddedBy f (tokens source)).length
        ((embeddedBy f (tokens next)).filter (· ∉ embeddedBy f (tokens source))) ∧
      joined.embedded = w.embedded ++ (numberedBy f (embeddedBy f (tokens source)).length
        ((embeddedBy f (tokens next)).filter (· ∉ embeddedBy f (tokens source)))).flatMap
          fun r => embed r.1 r.2 := by
  obtain ⟨w, hw, rfl⟩ := parse_eq_ok_iff.mp h
  obtain ⟨w', hw', rfl⟩ := parse_eq_ok_iff.mp h'
  have first := (read_eq_ok_iff byText).mp hw
  have second := (read_eq_ok_iff byText).mp hw'
  obtain ⟨ts, stop, split, hs⟩ := first.exists_concat
  have joined := first
  rw [split] at joined
  replace joined := joined.append second (width (source ++ between).toList)
  rw [← tokens_append split hs blank apart, ← split] at joined
  refine ⟨w, w', _, _, hw, rfl, first, hw', rfl, second, (read_eq_ok_iff byText).mpr joined,
    parse_eq_ok_iff.mpr ⟨_, (read_eq_ok_iff byText).mpr joined, rfl⟩, rfl,
    renumbers_renumbering (nodup_embeddedBy f _) (nodup_embeddedBy f _), rfl,
    rfl, ?_⟩
  simp only [Written.embedded, Written.blocks, List.map_append, List.flatMap_append,
    List.flatMap_map]
  rfl

end Joined

/-- Takes every text for any number of that one letter. -/
def loops (text : String) : Except String (ListedAutomaton CaseBlind) :=
  .ok ⟨0, [0], [0], [⟨0, 0, ⟨text⟩⟩]⟩

/-- Every fragment is embedded, unless its text is that of the empty word. -/
theorem embeddedBy_loops {ts : List Token}
    (h : ∀ text ∈ fragmentsOf ts, Label.isEpsilon (⟨text⟩ : CaseBlind) = false) :
    embeddedBy loops ts = fragmentsOf ts := by
  refine List.filter_eq_self.mpr fun text ht => embeds_iff.mpr ⟨_, rfl, ?_⟩
  rw [Verdict.of_loop (h text ht)]
  rfl

/-- The second source embeds a fragment of the first one and two of its own. -/
theorem parse_append_loops :
    ∃ (w w' joined : Written (ListedAutomaton CaseBlind) CaseBlind) (ρ : Nat → Nat),
      (read (.ofFunction loops) "S -> a T" ()).result = .ok w ∧
      (read (.ofFunction loops) "T -> b a | c" ()).result = .ok w' ∧
      (read (.ofFunction loops) ("S -> a T" ++ "\n" ++ "T -> b a | c") ()).result = .ok joined ∧
      joined.productions = w.productions ++ w'.productions.map (Production.renumber ρ) ∧
      ρ 0 = 1 ∧ ρ 1 = 0 ∧ ρ 2 = 2 ∧ joined.recorded.map (·.1) = [0, 1, 2] := by
  have byText : (Compiler.ofFunction loops).AnswersBy loops := fun _ _ => rfl
  have total (text : String) (s : Unit) : ∃ a, (Compiler.ofFunction loops text s).1 = .ok a :=
    ⟨_, rfl⟩
  obtain ⟨g, h⟩ := exists_parse_ok (by decide +kernel : Orderly (tokens "S -> a T"))
    (consult_ok total _ ())
  obtain ⟨g', h'⟩ := exists_parse_ok (by decide +kernel : Orderly (tokens "T -> b a | c"))
    (consult_ok total _ ())
  have blank : ∀ d ∈ "\n".toList, isBlank d = true := List.forall_mem_singleton.mpr (by decide)
  obtain ⟨w, w', joined, ρ, hw, -, first, hw', -, -, hj, -, -, new, productions, recorded, -⟩ :=
    parse_append byText h h' blank (by decide) ()
  have ids : embeddedBy loops (tokens "S -> a T") = ["a"] := by
    rw [embeddedBy_loops (by decide +kernel)]
    decide +kernel
  have ids' : embeddedBy loops (tokens "T -> b a | c") = ["b", "a", "c"] := by
    rw [embeddedBy_loops (by decide +kernel)]
    decide +kernel
  rw [ids, ids'] at new recorded
  refine ⟨w, w', joined, ρ, hw, hw', hj, productions, ?_, ?_, ?_, ?_⟩
  · exact new.goesOn (k := 0) rfl rfl
  · exact new.keeps rfl (j := 0) rfl
  · exact new.goesOn (k := 1) rfl rfl
  · obtain ⟨_, _, _, _, -, -, -, -, -, rfl⟩ := first
    rw [recorded, ids]
    rfl

end FragmentGrammar
