import FragmentGrammar.Proofs.Automaton.Language
import FragmentGrammar.Proofs.Resolver.Answers
import Mathlib.Data.List.Nodup

/-! # The history of a resolver

    Fragments are resolved one after the other, some for the first time, some again, and
    some in vain.  `Recalls` says what each call does to the automata that are known:
    a known text is answered from memory, and an unknown one is asked about once, which
    fails or makes it known for good.  The first answer to a text is therefore the only
    one, and the recorded automata are the ones that were given at such first answers
    (`remembers_callAll`). -/

namespace FragmentGrammar

variable {σ E A L : Type}

/-- A call of a resolver. -/
structure Call (E A L : Type) where
  text : String
  /-- What the compiler was asked on that call, with its answers. -/
  asked : List (String × Except E A)
  answer : Except E (Option (Symbol L))

/-- The number and the automaton that a call records, if it does. -/
def Call.record? (call : Call E A L) : Option (Nat × A) :=
  match call.answer, call.asked with
  | .ok (some (.nonterminal (.entry id))), [(_, .ok a)] => some (id, a)
  | _, _ => none

/-- The call is the first one that succeeds for its text. -/
def IsFirst (calls : List (Call E A L)) (call : Call E A L) : Prop :=
  (∃ symbol, call.answer = .ok symbol) ∧ ∃ before after, calls = before ++ call :: after ∧
    ∀ x ∈ before, x.text = call.text → ∃ e, x.answer = .error e

variable [Automaton A L] [Label L]

/-- Resolves fragments one after the other, and keeps the calls. -/
def Resolver.callAll (c : Compiler σ E A) (r : Resolver A L) :
    List String → σ → List (Call E A L) × Resolver A L × σ
  | [], s => ([], r, s)
  | text :: texts, s =>
    let first := r.resolve c.recorded text (s, [])
    let rest := callAll c first.resolver texts first.state.1
    (⟨text, first.state.2, first.answer⟩ :: rest.1, rest.2)

/-- What a resolver that starts with nothing has to do with its calls. -/
structure Remembers (calls : List (Call E A L)) (recorded : List (Nat × A)) : Prop where
  /-- The recorded automata are numbered from zero on. -/
  numbers : recorded.map (·.1) = List.range recorded.length
  /-- A text that was resolved is resolved to the same again, and nothing is asked. -/
  again {before after : List (Call E A L)} {call later : Call E A L}
    {symbol : Option (Symbol L)} : calls = before ++ call :: after → call.answer = .ok symbol →
    later ∈ after → later.text = call.text → later.answer = .ok symbol ∧ later.asked = []
  /-- A call fails with the answer of the compiler to its text. -/
  fails {call : Call E A L} {e : E} : call ∈ calls → call.answer = .error e →
    call.asked = [(call.text, .error e)]
  /-- The first success for a text goes by the automaton that the compiler gives then.  The
      label of a terminal is that of its only move, if the automaton answers by its moves. -/
  first {call : Call E A L} : IsFirst calls call → ∃ a, call.asked = [(call.text, .ok a)] ∧
    ((Automaton.acceptsOnlyEpsilon a = true ∧ call.answer = .ok none) ∨
      (Automaton.acceptsOnlyEpsilon a = false ∧ ∃ l, Automaton.singleTerminal a = some l ∧
        call.answer = .ok (some (.terminal ⟨l, call.text⟩)) ∧
        (Automaton.singleTerminal a = Automaton.soleLabel (Automaton.moves a)
          (Automaton.initial a) (Automaton.finals a) (Automaton.stateCount a) →
          ∃ m, Automaton.moves a = [m] ∧ m.label = l)) ∨
      (Automaton.acceptsOnlyEpsilon a = false ∧ Automaton.singleTerminal a = none ∧
        ∃ id, recorded[id]? = some (id, a) ∧
          call.answer = .ok (some (.nonterminal (.entry id)))))
  /-- Two texts do not share a number. -/
  distinct {x y : Call E A L} {id : Nat} : x ∈ calls → y ∈ calls →
    x.answer = .ok (some (.nonterminal (.entry id))) →
    y.answer = .ok (some (.nonterminal (.entry id))) → x.text = y.text
  /-- Every number is the answer to some text, and its automaton is the one that the
      compiler gave at the first success for that text. -/
  reached {id : Nat} : id < recorded.length → ∃ call a, IsFirst calls call ∧
    call.asked = [(call.text, .ok a)] ∧ call.answer = .ok (some (.nonterminal (.entry id))) ∧
    recorded[id]? = some (id, a) ∧ Automaton.acceptsOnlyEpsilon a = false ∧
    Automaton.singleTerminal a = none
  /-- What is recorded is what the calls record, so that a text that vanishes or is a
      terminal records nothing. -/
  records : recorded = calls.filterMap Call.record?

/-! ## One call -/

/-- What a call does to the automata that are known. -/
inductive Recalls : List (String × A) → Call E A L → List (String × A) → Prop
  /-- A known text is answered from memory. -/
  | known {known : List (String × A)} {text : String} {a : A} :
      known.lookup text = some a → Recalls known ⟨text, [], .ok (symbolOf known text)⟩ known
  /-- A failure is not remembered. -/
  | failed {known : List (String × A)} {text : String} {e : E} :
      known.lookup text = none → Recalls known ⟨text, [(text, .error e)], .error e⟩ known
  /-- An automaton is. -/
  | new {known : List (String × A)} {text : String} {a : A} :
      known.lookup text = none →
      Recalls known ⟨text, [(text, .ok a)], .ok (symbolOf (known ++ [(text, a)]) text)⟩
        (known ++ [(text, a)])

/-- What calls do, one after the other. -/
inductive RecallsAll : List (String × A) → List (Call E A L) → List (String × A) → Prop
  | nil (known : List (String × A)) : RecallsAll known [] known
  | cons {known mid known' : List (String × A)} {call : Call E A L} {calls : List (Call E A L)} :
      Recalls known call mid → RecallsAll mid calls known' →
      RecallsAll known (call :: calls) known'

section Calls

variable {known known' : List (String × A)} {call : Call E A L} {calls : List (Call E A L)}
  {text : String} {a : A} {symbol : Option (Symbol L)}

/-- Resolving keeps what the resolver knows, or adds to it. -/
theorem Resolver.recalls_resolve (c : Compiler σ E A) (known : List (String × A)) (text : String)
    (s : σ) : ∃ known',
      ((Resolver.knowing known : Resolver A L).resolve c.recorded text (s, [])).resolver =
        .knowing known' ∧
      Recalls known ⟨text,
        ((Resolver.knowing known : Resolver A L).resolve c.recorded text (s, [])).state.2,
        ((Resolver.knowing known : Resolver A L).resolve c.recorded text (s, [])).answer⟩
        known' := by
  cases hk : known.lookup text with
  | some a =>
      rw [resolve_knowing_of_known hk]
      exact ⟨known, rfl, .known hk⟩
  | none =>
      cases hc : c text s with
      | mk answer s' =>
          have asked : c.recorded text (s, []) = (answer, s', [(text, answer)]) := by
            rw [Compiler.recorded, hc]
            rfl
          cases answer with
          | error e =>
              rw [resolve_knowing_of_error hk asked]
              exact ⟨known, rfl, .failed hk⟩
          | ok a =>
              have resolved := resolve_knowing_of_ok (L := L) hk asked
              rw [resolved]
              exact ⟨known ++ [(text, a)], rfl, .new hk⟩

/-- A whole sequence of calls takes the known automata on, call by call. -/
theorem Resolver.recallsAll_callAll (c : Compiler σ E A) (texts : List String)
    (known : List (String × A)) (s : σ) : ∃ known',
      ((Resolver.knowing known : Resolver A L).callAll c texts s).2.1 = .knowing known' ∧
      RecallsAll known ((Resolver.knowing known : Resolver A L).callAll c texts s).1 known' := by
  induction texts generalizing known s with
  | nil => exact ⟨known, rfl, .nil known⟩
  | cons text texts ih =>
      obtain ⟨mid, resolver, recalls⟩ := recalls_resolve (L := L) c known text s
      rw [callAll, resolver]
      obtain ⟨known', last, rest⟩ := ih mid
        ((Resolver.knowing known : Resolver A L).resolve c.recorded text (s, [])).state.1
      exact ⟨known', last, .cons recalls rest⟩

/-! ### What a call does -/

namespace Recalls

/-- A call forgets nothing. -/
theorem isPrefix (h : Recalls known call known') : known <+: known' := by
  cases h with
  | known _ => exact List.prefix_rfl
  | failed _ => exact List.prefix_rfl
  | new _ => exact List.prefix_append ..

/-- A success goes by an automaton that is known from then on. -/
theorem ok (h : Recalls known call known') (hs : call.answer = .ok symbol) :
    ∃ a, known'.lookup call.text = some a ∧ symbol = symbolOf known' call.text := by
  cases h with
  | known hk => exact ⟨_, hk, (Except.ok.inj hs).symm⟩
  | failed _ => cases hs
  | new hk => exact ⟨_, lookup_concat_self hk _, (Except.ok.inj hs).symm⟩

/-- A known text is not asked about. -/
theorem of_known (h : Recalls known call known') (hk : known.lookup call.text = some a) :
    call.answer = .ok (symbolOf known call.text) ∧ call.asked = [] := by
  cases h with
  | known _ => exact ⟨rfl, rfl⟩
  | failed none =>
      rw [none] at hk
      cases hk
  | new none =>
      rw [none] at hk
      cases hk

/-- A call that fails has asked the compiler and got the same error. -/
theorem fails {e : E} (h : Recalls known call known') (he : call.answer = .error e) :
    call.asked = [(call.text, .error e)] := by
  cases h with
  | known _ => cases he
  | failed _ =>
      obtain rfl := Except.error.inj he
      rfl
  | new _ => cases he

/-- A text becomes known on a call for it, with the automaton that the compiler gives. -/
theorem learns (h : Recalls known call known') (hk : known.lookup text = none)
    (hk' : known'.lookup text = some a) :
    call.text = text ∧ call.asked = [(text, .ok a)] ∧
      call.answer = .ok (symbolOf known' text) := by
  cases h with
  | known _ =>
      rw [hk] at hk'
      cases hk'
  | failed _ =>
      rw [hk] at hk'
      cases hk'
  | @new asked b none =>
      by_cases same : text = asked
      · subst same
        rw [lookup_concat_self none] at hk'
        obtain rfl := Option.some.inj hk'
        exact ⟨rfl, rfl, rfl⟩
      · rw [lookup_concat_of_ne hk same] at hk'
        cases hk'

/-- A text is learnt once, since it is not asked about when it is known. -/
theorem distinct (h : Recalls known call known') (distinct : (known.map (·.1)).Nodup) :
    (known'.map (·.1)).Nodup := by
  cases h with
  | known _ => exact distinct
  | failed _ => exact distinct
  | new hk =>
      rw [List.map_append, List.nodup_append]
      refine ⟨distinct, List.nodup_singleton _, ?_⟩
      rintro x hx y hy rfl
      obtain ⟨z, hz, rfl⟩ := List.mem_map.mp hx
      obtain rfl := List.mem_singleton.mp hy
      exact bne_iff_ne.mp (List.lookup_eq_none_iff.mp hk z hz) rfl

/-- Only an automaton that becomes known and is embedded is recorded. -/
theorem records (h : Recalls known call known') :
    (Resolver.knowing known' : Resolver A L).recorded =
      (Resolver.knowing known : Resolver A L).recorded ++ call.record?.toList := by
  cases h with
  | @known text a hk =>
      have nothing : (⟨text, [], .ok (symbolOf known text)⟩ : Call E A L).record? = none := by
        rw [Call.record?]
        split <;> simp_all
      rw [nothing, Option.toList_none, List.append_nil]
  | failed _ => exact (List.append_nil _).symm
  | @new text a hk =>
      have now := lookup_concat_self hk a
      rw [recorded_knowing_concat, Call.record?]
      cases hv : Verdict.of a with
      | vanishes =>
          rw [symbolOf_of_vanishes now hv]
          rfl
      | terminal l =>
          rw [symbolOf_of_terminal now hv]
          rfl
      | embeds =>
          rw [symbolOf_of_embeds now hv, findIdx_embeddedOf_concat hk hv]
          rfl

end Recalls

/-! ## All calls -/

namespace RecallsAll

variable {before after : List (Call E A L)}

/-- A sequence of calls may be cut anywhere. -/
theorem exists_mid (h : RecallsAll known (before ++ after) known') :
    ∃ mid, RecallsAll known before mid ∧ RecallsAll mid after known' := by
  induction before generalizing known with
  | nil => exact ⟨known, .nil known, h⟩
  | cons call before ih =>
      cases h with
      | cons recalls rest =>
          obtain ⟨mid, front, back⟩ := ih rest
          exact ⟨mid, .cons recalls front, back⟩

theorem isPrefix (h : RecallsAll known calls known') : known <+: known' := by
  induction h with
  | nil => exact List.prefix_rfl
  | cons recalls _ ih => exact recalls.isPrefix.trans ih

theorem distinct (h : RecallsAll known calls known') (distinct : (known.map (·.1)).Nodup) :
    (known'.map (·.1)).Nodup := by
  induction h with
  | nil => exact distinct
  | cons recalls _ ih => exact ih (recalls.distinct distinct)

/-- The recorded automata are those that the calls record, in the order of the calls. -/
theorem records (h : RecallsAll known calls known') :
    (Resolver.knowing known' : Resolver A L).recorded =
      (Resolver.knowing known : Resolver A L).recorded ++ calls.filterMap Call.record? := by
  induction h with
  | nil => exact (List.append_nil _).symm
  | @cons _ _ _ call calls recalls _ ih =>
      rw [ih, recalls.records, List.append_assoc, List.filterMap_cons]
      cases call.record? <;> rfl

/-- What is known stays known. -/
theorem lookup_of_prefix (h : known <+: known') (hk : known.lookup text = some a) :
    known'.lookup text = some a ∧ symbolOf (L := L) known' text = symbolOf known text := by
  obtain ⟨more, rfl⟩ := h
  refine ⟨?_, symbolOf_append hk⟩
  rw [List.lookup_append, hk]
  rfl

/-- A success goes by an automaton that is known in the end. -/
theorem ok (h : RecallsAll known calls known') (hc : call ∈ calls)
    (hs : call.answer = .ok symbol) :
    ∃ a, known'.lookup call.text = some a ∧ symbol = symbolOf known' call.text := by
  induction h with
  | nil => cases hc
  | cons recalls rest ih =>
      rcases List.mem_cons.mp hc with rfl | later
      · obtain ⟨a, ha, rfl⟩ := recalls.ok hs
        obtain ⟨ha', same⟩ := lookup_of_prefix (L := L) rest.isPrefix ha
        exact ⟨a, ha', same.symm⟩
      · exact ih later

/-- A known text is answered from memory on every call. -/
theorem of_known (h : RecallsAll known calls known') (hc : call ∈ calls)
    (hk : known.lookup call.text = some a) :
    call.answer = .ok (symbolOf known call.text) ∧ call.asked = [] := by
  induction h with
  | nil => cases hc
  | @cons known mid _ first calls recalls rest ih =>
      rcases List.mem_cons.mp hc with rfl | later
      · exact recalls.of_known hk
      · obtain ⟨hk', same⟩ := lookup_of_prefix (L := L) recalls.isPrefix hk
        rw [← same]
        exact ih later hk'

theorem fails {e : E} (h : RecallsAll known calls known') (hc : call ∈ calls)
    (he : call.answer = .error e) : call.asked = [(call.text, .error e)] := by
  induction h with
  | nil => cases hc
  | cons recalls _ ih =>
      rcases List.mem_cons.mp hc with rfl | later
      · exact recalls.fails he
      · exact ih later

/-- A text that becomes known does so at its first success, with the automaton that the
    compiler gives then. -/
theorem learns (h : RecallsAll known calls known') (hk : known.lookup text = none)
    (hk' : known'.lookup text = some a) :
    ∃ call, IsFirst calls call ∧ call.text = text ∧ call.asked = [(text, .ok a)] ∧
      call.answer = .ok (symbolOf known' text) := by
  induction h with
  | nil =>
      rw [hk] at hk'
      cases hk'
  | @cons known mid known' first calls recalls rest ih =>
      cases hm : mid.lookup text with
      | some b =>
          -- this call is the first success
          obtain ⟨hb, same⟩ := lookup_of_prefix (L := L) rest.isPrefix hm
          obtain rfl := Option.some.inj (hb.symm.trans hk')
          obtain ⟨named, asked, answer⟩ := recalls.learns hk hm
          rw [← same] at answer
          exact ⟨first, ⟨⟨_, answer⟩, [], calls, rfl, List.forall_mem_nil _⟩, named, asked, answer⟩
      | none =>
          obtain ⟨call, ⟨success, before, after, rfl, failures⟩, named, asked, answer⟩ := ih hm hk'
          refine ⟨call, ⟨success, first :: before, after, rfl, ?_⟩, named, asked, answer⟩
          intro x hx same
          rcases List.mem_cons.mp hx with rfl | earlier
          · cases hans : x.answer with
            | error e => exact ⟨e, rfl⟩
            | ok symbol =>
                obtain ⟨b, hb, -⟩ := recalls.ok hans
                rw [same, named, hm] at hb
                cases hb
          · exact failures x earlier same

/-- The first success for a text learns it. -/
theorem of_isFirst (h : RecallsAll [] calls known') (hf : IsFirst calls call) :
    ∃ a, known'.lookup call.text = some a ∧ call.asked = [(call.text, .ok a)] ∧
      call.answer = .ok (symbolOf known' call.text) := by
  obtain ⟨⟨symbol, success⟩, before, after, rfl, failures⟩ := hf
  obtain ⟨mid, front, back⟩ := h.exists_mid
  -- no call before succeeded, so the text is not known yet
  have unknown : mid.lookup call.text = none := by
    cases hm : mid.lookup call.text with
    | none => rfl
    | some b =>
        obtain ⟨x, ⟨-, past, more, rfl, -⟩, named, -, answer⟩ := front.learns List.lookup_nil hm
        obtain ⟨e, he⟩ := failures x (by simp) named
        rw [he] at answer
        cases answer
  cases back with
  | cons recalls rest =>
      obtain ⟨a, ha, -⟩ := recalls.ok success
      obtain ⟨ha', same⟩ := lookup_of_prefix (L := L) rest.isPrefix ha
      obtain ⟨-, asked, answer⟩ := recalls.learns unknown ha
      rw [← same] at answer
      exact ⟨a, ha', asked, answer⟩

end RecallsAll

/-! ## Numbers -/

section Numbers

variable {id : Nat} {l : L}

/-- What does not vanish accepts another word or none. -/
theorem acceptsOnlyEpsilon_of_ne_vanishes (h : Verdict.of a ≠ (.vanishes : Verdict L)) :
    Automaton.acceptsOnlyEpsilon a = false :=
  Bool.eq_false_iff.mpr fun empty => h (Verdict.of_eq_vanishes_iff.mpr empty)

/-- What is embedded is no single terminal. -/
theorem singleTerminal_of_embeds (h : Verdict.of a = (.embeds : Verdict L)) :
    Automaton.singleTerminal a = none := by
  rw [Verdict.of] at h
  split at h
  next => cases h
  next =>
    split at h
    next => cases h
    next none => exact none

/-- The automaton recorded under a number is the embedded one at that place. -/
theorem getElem?_recorded (known : List (String × A)) (id : Nat) :
    (Resolver.knowing known : Resolver A L).recorded[id]? =
      (embeddedOf known)[id]?.map fun x => (id, x.2) := by
  show ((embeddedOf known).zipIdx.map _)[id]? = _
  rw [List.getElem?_map, List.getElem?_zipIdx, Option.map_map, Nat.zero_add]
  rfl

/-- Numbers are given without gaps, from zero on. -/
theorem map_fst_recorded (known : List (String × A)) :
    (Resolver.knowing known : Resolver A L).recorded.map (·.1) =
      List.range (Resolver.knowing known : Resolver A L).recorded.length := by
  rw [length_recorded_knowing]
  show ((embeddedOf known).zipIdx.map _).map _ = _
  rw [List.map_map, List.range_eq_range']
  exact List.zipIdx_map_snd 0 (embeddedOf known)

/-- The number of an embedded fragment is its place among them. -/
theorem getElem?_embeddedOf (h : known.lookup text = some a)
    (hv : Verdict.of a = (.embeds : Verdict L)) :
    (embeddedOf known)[(embeddedOf known).findIdx (·.1 = text)]? = some (text, a) := by
  obtain ⟨before, after, rfl, new⟩ := List.lookup_eq_some_iff.mp h
  rw [findIdx_embeddedOf (fun x hx => bne_iff_ne.mp (new x hx)) after hv,
    embeddedOf_append_cons before after hv]
  simp

/-- A fragment that leaves a number is embedded there. -/
theorem getElem?_of_symbolOf_entry (h : symbolOf known text = some (.nonterminal (.entry id)) ) :
    ∃ a, (embeddedOf known)[id]? = some (text, a) := by
  cases hk : known.lookup text with
  | none => simp [symbolOf, hk] at h
  | some a =>
      cases hv : (Verdict.of a : Verdict L) with
      | vanishes => simp [symbolOf_of_vanishes hk hv] at h
      | terminal l => simp [symbolOf_of_terminal hk hv] at h
      | embeds =>
          obtain rfl : (embeddedOf known).findIdx (·.1 = text) = id := by
            simpa [symbolOf_of_embeds hk hv] using h
          exact ⟨a, getElem?_embeddedOf hk hv⟩

/-- Where no text is listed twice, every automaton is found under its text. -/
theorem lookup_of_mem (distinct : (known.map (·.1)).Nodup) (h : (text, a) ∈ known) :
    known.lookup text = some a := by
  obtain ⟨before, after, rfl⟩ := List.append_of_mem h
  refine List.lookup_eq_some_iff.mpr ⟨before, after, rfl, fun x hx => bne_iff_ne.mpr ?_⟩
  rw [List.map_append, List.nodup_append] at distinct
  exact (distinct.2.2 x.1 (List.mem_map_of_mem hx) text (by simp)).symm

/-- What stands at a number among the embedded fragments is known, and leaves it. -/
theorem symbolOf_of_getElem? (distinct : (known.map (·.1)).Nodup)
    (h : (embeddedOf known)[id]? = some (text, a)) :
    known.lookup text = some a ∧ Verdict.of a = (.embeds : Verdict L) ∧
      symbolOf known text = some (.nonterminal (.entry id)) := by
  obtain ⟨mem, embeds⟩ := List.mem_filter.mp (List.mem_of_getElem? h)
  have hk := lookup_of_mem distinct mem
  have hv : Verdict.of a = (.embeds : Verdict L) := by
    cases hv : (Verdict.of a : Verdict L) with
    | embeds => rfl
    | vanishes => simp [hv, Verdict.isEmbeds] at embeds
    | terminal l => simp [hv, Verdict.isEmbeds] at embeds
  obtain ⟨bound, -⟩ := List.getElem?_eq_some_iff.mp h
  have once : (embeddedOf known).Nodup := distinct.of_map.filter _
  have place := (List.getElem?_inj bound once).mp (h.trans (getElem?_embeddedOf hk hv).symm)
  refine ⟨hk, hv, ?_⟩
  rw [symbolOf_of_embeds hk hv, ← place]

end Numbers

/-! ## The whole history -/

/-- Calls that start with nothing are remembered as they should be. -/
theorem RecallsAll.remembers (h : RecallsAll [] calls known') :
    Remembers calls (Resolver.knowing known' : Resolver A L).recorded where
  numbers := map_fst_recorded known'
  again {before after call later symbol} split success hl same := by
    rw [split, List.append_cons] at h
    obtain ⟨mid, front, back⟩ := h.exists_mid
    obtain ⟨a, ha, rfl⟩ := front.ok (List.mem_append_right _ (List.mem_singleton_self _)) success
    rw [← same] at ha ⊢
    exact back.of_known hl ha
  fails hc he := h.fails hc he
  first {call} hf := by
    obtain ⟨a, ha, asked, answer⟩ := h.of_isFirst hf
    refine ⟨a, asked, ?_⟩
    cases hv : (Verdict.of a : Verdict L) with
    | vanishes =>
        rw [symbolOf_of_vanishes ha hv] at answer
        exact .inl ⟨Verdict.of_eq_vanishes_iff.mp hv, answer⟩
    | terminal l =>
        have single := Verdict.of_eq_terminal hv
        rw [symbolOf_of_terminal ha hv] at answer
        refine .inr (.inl ⟨acceptsOnlyEpsilon_of_ne_vanishes ?_, l, single, answer, ?_⟩)
        · rw [hv]
          simp
        · intro byMoves
          obtain ⟨m, alone, label⟩ := Automaton.soleLabel_eq_some_iff.mp (byMoves.symm.trans single)
          exact ⟨m, alone.moves, label⟩
    | embeds =>
        rw [symbolOf_of_embeds ha hv] at answer
        refine .inr (.inr ⟨acceptsOnlyEpsilon_of_ne_vanishes ?_, singleTerminal_of_embeds hv, _, ?_,
          answer⟩)
        · rw [hv]
          simp
        · rw [getElem?_recorded, getElem?_embeddedOf ha hv]
          rfl
  distinct {x y id} hx hy first second := by
    obtain ⟨-, -, same⟩ := h.ok hx first
    obtain ⟨-, -, same'⟩ := h.ok hy second
    obtain ⟨a, ha⟩ := getElem?_of_symbolOf_entry same.symm
    obtain ⟨b, hb⟩ := getElem?_of_symbolOf_entry same'.symm
    exact congrArg (·.1) (Option.some.inj (ha.symm.trans hb))
  reached {id} bound := by
    rw [length_recorded_knowing] at bound
    cases hx : (embeddedOf known')[id] with
    | mk text a =>
        have found : (embeddedOf known')[id]? = some (text, a) := by
          rw [List.getElem?_eq_getElem bound, hx]
        obtain ⟨hk, hv, symbol⟩ := symbolOf_of_getElem? (h.distinct List.nodup_nil) found
        obtain ⟨call, hf, rfl, asked, answer⟩ := h.learns List.lookup_nil hk
        rw [symbol] at answer
        refine ⟨call, a, hf, asked, answer, ?_, acceptsOnlyEpsilon_of_ne_vanishes ?_,
          singleTerminal_of_embeds hv⟩
        · rw [getElem?_recorded, found]
          rfl
        · rw [hv]
          simp
  records := h.records

end Calls

/-- All that a call can come to: the text is known, or the compiler is asked and fails, or
    it is asked and its automaton is learnt. -/
theorem Resolver.resolve_cases (c : Compiler σ E A) (r : Resolver A L) (text : String) (s : σ) :
    (∃ symbol, r.memo.lookup text = some symbol ∧
      r.resolve c.recorded text (s, []) = ⟨.ok symbol, r, (s, []), []⟩) ∨
    (∃ e s', r.memo.lookup text = none ∧ c text s = (.error e, s') ∧
      r.resolve c.recorded text (s, []) = ⟨.error e, r, (s', [(text, .error e)]), []⟩) ∨
    (∃ a s', r.memo.lookup text = none ∧ c text s = (.ok a, s') ∧
      r.resolve c.recorded text (s, []) =
        ⟨.ok (r.learn text a).1, (r.learn text a).2.1, (s', [(text, .ok a)]),
          [(r.learn text a).2.2]⟩) := by
  cases hk : r.memo.lookup text with
  | some symbol => exact .inl ⟨symbol, rfl, resolve_of_known hk⟩
  | none =>
      cases hc : c text s with
      | mk answer s' =>
          have asked : c.recorded text (s, []) = (answer, s', [(text, answer)]) := by
            rw [Compiler.recorded, hc]
            rfl
          cases answer with
          | error e => exact .inr (.inl ⟨e, s', rfl, rfl, resolve_of_error hk asked⟩)
          | ok a => exact .inr (.inr ⟨a, s', rfl, rfl, resolve_of_ok hk asked⟩)

/-- Keeping the calls of the compiler changes nothing else. -/
theorem Resolver.resolve_recorded (c : Compiler σ E A) (r : Resolver A L) (text : String) (s : σ) :
    (r.resolve c.recorded text (s, [])).answer = (r.resolve c text s).answer ∧
      (r.resolve c.recorded text (s, [])).resolver = (r.resolve c text s).resolver ∧
      (r.resolve c.recorded text (s, [])).state.1 = (r.resolve c text s).state := by
  rcases resolve_cases c r text s with
    ⟨symbol, hk, resolved⟩ | ⟨e, s', hk, hc, resolved⟩ | ⟨a, s', hk, hc, resolved⟩
  · rw [resolved, resolve_of_known hk]
    exact ⟨rfl, rfl, rfl⟩
  · rw [resolved, resolve_of_error hk hc]
    exact ⟨rfl, rfl, rfl⟩
  · rw [resolved, resolve_of_ok hk hc]
    exact ⟨rfl, rfl, rfl⟩

/-- Writing down what was asked changes neither answers nor resolver. -/
theorem Resolver.callAll_eq (c : Compiler σ E A) (r : Resolver A L) (texts : List String) (s : σ) :
    (r.callAll c texts s).1.map (·.answer) = (r.resolveAll c texts s).1.map (·.1) ∧
      (r.callAll c texts s).2 = (r.resolveAll c texts s).2 := by
  induction texts generalizing r s with
  | nil => exact ⟨rfl, rfl⟩
  | cons text texts ih =>
      obtain ⟨answer, resolver, state⟩ := resolve_recorded c r text s
      obtain ⟨answers, rest⟩ := ih (r.resolve c text s).resolver (r.resolve c text s).state
      rw [callAll, resolveAll, List.map_cons, List.map_cons, answer, resolver, state]
      exact ⟨congrArg _ answers, rest⟩

/-- There is one call for each text. -/
theorem Resolver.map_text_callAll (c : Compiler σ E A) (r : Resolver A L) (texts : List String)
    (s : σ) : (r.callAll c texts s).1.map (·.text) = texts := by
  induction texts generalizing r s with
  | nil => rfl
  | cons text texts ih => exact congrArg _ (ih _ _)

/-- However fragments are resolved one after the other, and whatever the compiler answers,
    a resolver that starts with nothing remembers what it should. -/
theorem remembers_callAll (c : Compiler σ E A) (texts : List String) (s : σ) :
    Remembers ((Resolver.empty : Resolver A L).callAll c texts s).1
        ((Resolver.empty : Resolver A L).resolveAll c texts s).2.1.recorded ∧
      ((Resolver.empty : Resolver A L).callAll c texts s).1.map (·.text) = texts ∧
      ((Resolver.empty : Resolver A L).callAll c texts s).1.map (·.answer) =
        ((Resolver.empty : Resolver A L).resolveAll c texts s).1.map (·.1) := by
  obtain ⟨answers, rest⟩ := Resolver.callAll_eq c (Resolver.empty : Resolver A L) texts s
  obtain ⟨known', resolver, calls⟩ := Resolver.recallsAll_callAll (L := L) c texts [] s
  have nothing : (Resolver.empty : Resolver A L) = .knowing [] := rfl
  refine ⟨?_, Resolver.map_text_callAll c _ texts s, answers⟩
  rw [← rest, nothing, resolver]
  exact calls.remembers

end FragmentGrammar
