import FragmentGrammar.Offence
import FragmentGrammar.Reading
import Mathlib.Data.List.Induction

/-! # Rules of a token stream, segment by segment

    Between two breaks, a bar or an arrow, stand only names and fragments.  Such a segment
    is the body of one rule, up to the name that an arrow takes back.  `CutInto` says so
    of a whole stream: its segments, what ends them, and the rules that they are.
    Reading the rules with one token in sight finds these very rules
    (`CutInto.rulesOf_eq`). -/

namespace FragmentGrammar

/-- The kind of a token that ends a body. -/
def TokenKind.isBreak (kind : TokenKind) : Bool :=
  kind = .bar || kind = .arrow

/-- The kind of a token that stands in a body. -/
def TokenKind.isWord (kind : TokenKind) : Bool :=
  kind = .nonterminal || kind = .fragment

/-- What a token mentions in the body that it stands in. -/
def Token.mention? (t : Token) : Option Mention :=
  match t.kind with
  | .nonterminal => some (.name t.source)
  | .fragment => some (.fragment t.source)
  | _ => none

/-- What the tokens of a segment mention. -/
def mentionsOf (segment : List Token) : List Mention :=
  segment.filterMap Token.mention?

theorem mentionsOf_cons {t : Token} {m : Mention} (h : t.mention? = some m) (ts : List Token) :
    mentionsOf (t :: ts) = m :: mentionsOf ts := by
  rw [mentionsOf, List.filterMap_cons, h]
  rfl

/-- Mentions are found token by token. -/
theorem mentionsOf_append (ts us : List Token) :
    mentionsOf (ts ++ us) = mentionsOf ts ++ mentionsOf us :=
  List.filterMap_append

theorem exists_of_fragment_mem {ts : List Token} {text : String}
    (h : .fragment text ∈ mentionsOf ts) : ∃ t ∈ ts, t.kind = .fragment ∧ t.source = text := by
  obtain ⟨t, ht, hm⟩ := List.mem_filterMap.mp h
  refine ⟨t, ht, ?_⟩
  cases hk : t.kind <;> simp_all [Token.mention?]

/-! ## One token -/

section Token

variable {t a : Token} {ts : List Token} {head : String}

theorem mention?_of_nonterminal (h : t.kind = .nonterminal) :
    t.mention? = some (.name t.source) := by
  rw [Token.mention?, h]

theorem mention?_of_fragment (h : t.kind = .fragment) :
    t.mention? = some (.fragment t.source) := by
  rw [Token.mention?, h]

theorem rulesOf_fragment (h : t.kind = .fragment) :
    rulesOf head (t :: ts) = Rule.mention (.fragment t.source) (rulesOf head ts) := by
  rw [rulesOf.eq_def]
  simp only [h]

theorem rulesOf_bar (h : t.kind = .bar) :
    rulesOf head (t :: ts) = ⟨head, []⟩ :: rulesOf head ts := by
  rw [rulesOf.eq_def]
  simp only [h]

theorem rulesOf_stop (h : t.kind = .stop) : rulesOf head (t :: ts) = [⟨head, []⟩] := by
  rw [rulesOf.eq_def]
  simp only [h]

theorem rulesOf_name_arrow (h : t.kind = .nonterminal) (ha : a.kind = .arrow) :
    rulesOf head (t :: a :: ts) = ⟨head, []⟩ :: rulesOf t.source ts := by
  rw [rulesOf.eq_def]
  simp only [h, ha, if_true]

theorem rulesOf_name (h : t.kind = .nonterminal) (ha : ∀ a ∈ ts.head?, a.kind ≠ .arrow) :
    rulesOf head (t :: ts) = Rule.mention (.name t.source) (rulesOf head ts) := by
  rw [rulesOf.eq_def]
  cases ts with
  | nil =>
      simp only [h]
      rfl
  | cons a rest => simp only [h, if_neg (ha a rfl)]

end Token

/-! ## One segment -/

/-- The words of a segment are the body of the first rule of what follows, if that starts
    with an empty body. -/
theorem rulesOf_segment {segment rest : List Token} {head : String} {more : List Rule}
    (words : ∀ t ∈ segment, t.kind.isWord = true) (next : ∀ a ∈ rest.head?, a.kind ≠ .arrow)
    (h : rulesOf head rest = ⟨head, []⟩ :: more) :
    rulesOf head (segment ++ rest) = ⟨head, mentionsOf segment⟩ :: more := by
  induction segment with
  | nil => exact h
  | cons t segment ih =>
      have tail := ih fun u hu => words u (List.mem_cons_of_mem _ hu)
      have word : t.kind = .nonterminal ∨ t.kind = .fragment := by
        simpa [TokenKind.isWord] using words t List.mem_cons_self
      -- what comes next is a word of the segment, or stands behind it
      have quiet : ∀ a ∈ (segment ++ rest).head?, a.kind ≠ .arrow := by
        cases segment with
        | nil => exact next
        | cons u segment =>
            intro a ha
            obtain rfl : u = a := by simpa using ha
            intro arrow
            have := words u (by simp)
            rw [arrow] at this
            cases this
      rcases word with hk | hk
      · rw [List.cons_append, rulesOf_name hk quiet, tail,
          mentionsOf_cons (mention?_of_nonterminal hk)]
        rfl
      · rw [List.cons_append, rulesOf_fragment hk, tail, mentionsOf_cons (mention?_of_fragment hk)]
        rfl

/-! ## All segments -/

/-- The tokens, up to the end of the text, are cut into these rules, one for each segment:
    at every bar, the head staying in force, and at every name with an arrow behind it,
    the name becoming the head. -/
inductive CutInto : String → List Token → List Rule → Prop
  | last {head : String} {segment : List Token} {stop : Token}
      (words : ∀ t ∈ segment, t.kind.isWord = true) (hs : stop.kind = .stop) :
      CutInto head (segment ++ [stop]) [⟨head, mentionsOf segment⟩]
  | bar {head : String} {segment ts : List Token} {bar : Token} {rules : List Rule}
      (words : ∀ t ∈ segment, t.kind.isWord = true) (hb : bar.kind = .bar)
      (rest : CutInto head ts rules) :
      CutInto head (segment ++ bar :: ts) (⟨head, mentionsOf segment⟩ :: rules)
  | arrow {head : String} {segment ts : List Token} {next arrow : Token} {rules : List Rule}
      (words : ∀ t ∈ segment, t.kind.isWord = true) (hn : next.kind = .nonterminal)
      (ha : arrow.kind = .arrow) (rest : CutInto next.source ts rules) :
      CutInto head (segment ++ next :: arrow :: ts) (⟨head, mentionsOf segment⟩ :: rules)

/-- There is one way to cut a stream, and reading its rules finds it. -/
theorem CutInto.rulesOf_eq {head : String} {ts : List Token} {rules : List Rule}
    (h : CutInto head ts rules) : rulesOf head ts = rules := by
  induction h with
  | last words hs => exact rulesOf_segment words (by simp [hs]) (rulesOf_stop hs)
  | bar words hb _ ih =>
      rw [← ih]
      exact rulesOf_segment words (by simp [hb]) (rulesOf_bar hb)
  | arrow words hn ha _ ih =>
      rw [← ih]
      exact rulesOf_segment words (by simp [hn]) (rulesOf_name_arrow hn ha)

/-- The body of a rule is a segment of the stream, and its head a name there, unless that
    is the head in force. -/
theorem CutInto.exists_segment {head : String} {ts : List Token} {rules : List Rule}
    (h : CutInto head ts rules) {r : Rule} (hr : r ∈ rules) :
    ∃ segment, (∀ t ∈ segment, t ∈ ts) ∧ r.body = mentionsOf segment ∧
      (r.head = head ∨ ∃ t ∈ ts, t.kind = .nonterminal ∧ r.head = t.source) := by
  induction h with
  | @last _ segment _ words hs =>
      obtain rfl := List.mem_singleton.mp hr
      exact ⟨segment, fun t ht => List.mem_append_left _ ht, rfl, .inl rfl⟩
  | @bar _ segment ts bar _ words hb _ ih =>
      rcases List.mem_cons.mp hr with rfl | later
      · exact ⟨segment, fun t ht => List.mem_append_left _ ht, rfl, .inl rfl⟩
      · obtain ⟨part, within, body, head⟩ := ih later
        have behind {t : Token} (ht : t ∈ ts) : t ∈ segment ++ bar :: ts := by
          simp [ht]
        refine ⟨part, fun t ht => behind (within t ht), body, head.imp_right ?_⟩
        rintro ⟨t, ht, found⟩
        exact ⟨t, behind ht, found⟩
  | @arrow _ segment ts next arrow _ words hn ha _ ih =>
      rcases List.mem_cons.mp hr with rfl | later
      · exact ⟨segment, fun t ht => List.mem_append_left _ ht, rfl, .inl rfl⟩
      · obtain ⟨part, within, body, head⟩ := ih later
        have behind {t : Token} (ht : t ∈ ts) : t ∈ segment ++ next :: arrow :: ts := by
          simp [ht]
        refine ⟨part, fun t ht => behind (within t ht), body, .inr ?_⟩
        rcases head with named | ⟨t, ht, found⟩
        · exact ⟨next, by simp, hn, named⟩
        · exact ⟨t, behind ht, found⟩

/-- A fragment in a rule stands in the stream. -/
theorem CutInto.exists_fragment {head : String} {ts : List Token} {rules : List Rule}
    (h : CutInto head ts rules) {r : Rule} (hr : r ∈ rules) {text : String}
    (hm : .fragment text ∈ r.body) : ∃ t ∈ ts, t.kind = .fragment ∧ t.source = text := by
  obtain ⟨segment, within, body, -⟩ := h.exists_segment hr
  rw [body] at hm
  obtain ⟨t, ht, found⟩ := exists_of_fragment_mem hm
  exact ⟨t, within t ht, found⟩

/-- The first rule belongs to the head that the reader started with. -/
theorem CutInto.head_eq {head : String} {ts : List Token} {rules : List Rule}
    (h : CutInto head ts rules) : rules.head?.map (·.head) = some head := by
  cases h <;> rfl

/-! ## The segment that is read -/

section SinceBreak

variable {t : Token}

/-- What `sinceBreak` runs over is what does not break. -/
private theorem runs_iff (t : Token) :
    (decide (t.kind ≠ .bar) && decide (t.kind ≠ .arrow)) = !t.kind.isBreak := by
  cases t.kind <;> rfl

/-- Nothing stands behind a break that was just read. -/
theorem sinceBreak_concat_of_break (before : List Token) (h : t.kind.isBreak = true) :
    sinceBreak (before ++ [t]) = [] := by
  rw [sinceBreak, List.reverse_append, List.reverse_singleton, List.singleton_append,
    List.takeWhile_cons, runs_iff, h]
  rfl

/-- Other tokens are kept behind the last break. -/
theorem sinceBreak_concat (before : List Token) (h : t.kind.isBreak = false) :
    sinceBreak (before ++ [t]) = sinceBreak before ++ [t] := by
  rw [sinceBreak, List.reverse_append, List.reverse_singleton, List.singleton_append,
    List.takeWhile_cons, runs_iff, h, Bool.not_false, if_pos rfl, List.reverse_cons]
  rfl

theorem isBreak_of_isWord (h : t.kind.isWord = true) : t.kind.isBreak = false := by
  cases hk : t.kind <;> rw [hk] at h <;> first | rfl | cases h

/-- Nothing in front of a break counts. -/
theorem sinceBreak_append_cons (before more : List Token) (h : t.kind.isBreak = true) :
    sinceBreak (before ++ t :: more) = sinceBreak more := by
  induction more using List.reverseRecOn with
  | nil => exact sinceBreak_concat_of_break before h
  | append_singleton more u ih =>
      rw [← List.cons_append, ← List.append_assoc]
      cases hu : u.kind.isBreak with
      | true => rw [sinceBreak_concat_of_break _ hu, sinceBreak_concat_of_break _ hu]
      | false => rw [sinceBreak_concat _ hu, sinceBreak_concat _ hu, ih]

theorem mem_of_mem_sinceBreak {before : List Token} (h : t ∈ sinceBreak before) : t ∈ before := by
  rw [sinceBreak, List.mem_reverse] at h
  exact List.mem_reverse.mp ((List.takeWhile_sublist _).subset h)

end SinceBreak

end FragmentGrammar
