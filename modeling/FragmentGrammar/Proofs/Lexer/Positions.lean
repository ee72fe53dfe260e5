import FragmentGrammar.Proofs.Lexer.LongestMatch
import FragmentGrammar.Proofs.Lexer.Stream
import Mathlib.Data.List.Chain
import Mathlib.Data.String.Basic

/-! # Where tokens stand

    A token stream, said place by place.  Every token is the slice of its source between
    its two ends and a lexeme in front of what follows it, only blanks stand before the
    first token and between neighbours, and only the last token ends the stream
    (`Tokenizes`).  The bytes in front of a place fix the characters there
    (`append_inj_of_width`), so such a list can be laid out as tiles from left to right:
    it is the lexer's stream, and there is no other (`tokenizes_iff_tokens`).  A place is a
    range of bytes between characters, and what is cut out there is the text of its token
    (`Token.Stands.within`, `Token.Stands.slice_eq`). -/

namespace FragmentGrammar

/-! ## Places -/

/-- The text is all blanks, or empty. -/
def AllBlank (text : String) : Prop :=
  ∀ c ∈ text.toList, isBlank c = true

instance (text : String) : Decidable (AllBlank text) :=
  decidable_of_iff (text.toList.all isBlank = true) List.all_eq_true

/-- The span is where `text` stands in `source`, with `after` behind it.  Its ends count
    the bytes of whole characters. -/
def Span.Covers (span : Span) (source text after : String) : Prop :=
  ∃ before, source = before ++ text ++ after ∧
    span = ⟨before.utf8ByteSize, (before ++ text).utf8ByteSize⟩

/-- The text that stands in `source` between the ends of the span. -/
def Span.slice (span : Span) (source : String) : String :=
  String.Pos.Raw.extract source ⟨span.start⟩ ⟨span.stop⟩

/-- The span is a range of the bytes of `source`, with a character boundary at both
    ends. -/
structure Span.Within (span : Span) (source : String) : Prop where
  start : String.Pos.Raw.IsValid source ⟨span.start⟩
  stop : String.Pos.Raw.IsValid source ⟨span.stop⟩
  ordered : span.start ≤ span.stop
  inside : span.stop ≤ source.utf8ByteSize

/-- Nothing but blanks stands in `source` from the byte `start` to the byte `stop`. -/
def BlankBetween (source : String) (start stop : Nat) : Prop :=
  ∃ gap after, AllBlank gap ∧ Span.Covers ⟨start, stop⟩ source gap after

/-- The token stands where it says, and is a lexeme of its kind there. -/
def Token.Stands (source : String) (t : Token) : Prop :=
  ∃ after, t.span.Covers source t.source after ∧ Lexeme t.kind t.source.toList after.toList

/-- The tokens `ts` are a stream of `source`. -/
structure Tokenizes (source : String) (ts : List Token) : Prop where
  /-- The last token ends the stream, and no other does. -/
  ends : IsStream ts
  /-- Every token is a slice of the source and a lexeme there. -/
  stands : ∀ t ∈ ts, t.Stands source
  /-- Each token starts behind the one before it, or the start of the source, with
      nothing but blanks between the two. -/
  gaps : (⟨0, 0⟩ :: ts.map (·.span)).IsChain fun a b => BlankBetween source a.stop b.start
  /-- The end of the text is where the source ends. -/
  atEnd : ∀ t ∈ ts, t.kind = .stop → t.span = ⟨source.utf8ByteSize, source.utf8ByteSize⟩

section Width

variable {before text after before' after' : List Char}

/-- The size of a text is the sum over its characters. -/
theorem utf8ByteSize_eq_width (s : String) : s.utf8ByteSize = width s.toList := by
  rw [← utf8ByteSize_ofList_eq_width, String.ofList_toList]

/-- The bytes in front of a place say which characters stand there. -/
theorem append_inj_of_width (same : before ++ after = before' ++ after')
    (h : width before = width before') : before = before' ∧ after = after' := by
  induction before generalizing before' with
  | nil =>
      obtain rfl : before' = [] := width_eq_zero_iff.mp h.symm
      exact ⟨rfl, same⟩
  | cons c before ih =>
      cases before' with
      | nil => exact absurd (width_eq_zero_iff.mp h) (List.cons_ne_nil c before)
      | cons d before' =>
          obtain ⟨rfl, tail⟩ := List.cons.inj same
          rw [width_cons, width_cons] at h
          obtain ⟨rfl, rfl⟩ := ih tail (Nat.add_left_cancel h)
          exact ⟨rfl, rfl⟩

end Width

section Covers

variable {source text after : String} {span : Span}

/-- A span covers a text that stands between what is before it and what is behind it. -/
theorem Span.covers_iff : span.Covers source text after ↔
    ∃ before : List Char, source.toList = before ++ (text.toList ++ after.toList) ∧
      span = ⟨width before, width before + width text.toList⟩ := by
  constructor
  · rintro ⟨before, rfl, rfl⟩
    refine ⟨before.toList, ?_, ?_⟩
    · rw [String.toList_append, String.toList_append, List.append_assoc]
    · rw [utf8ByteSize_eq_width, utf8ByteSize_eq_width, String.toList_append, width_append]
  · rintro ⟨before, whole, rfl⟩
    refine ⟨String.ofList before, ?_, ?_⟩
    · apply String.toList_inj.mp
      rw [whole, String.toList_append, String.toList_append, String.toList_ofList,
        List.append_assoc]
    · rw [utf8ByteSize_eq_width, utf8ByteSize_eq_width, String.toList_append, width_append,
        String.toList_ofList]

/-- Characters behind `before` stand where the bytes of `before` end. -/
theorem Span.covers_of_append {before cs rest : List Char}
    (whole : source.toList = before ++ (cs ++ rest)) :
    Span.Covers ⟨width before, width before + width cs⟩ source (String.ofList cs)
      (String.ofList rest) := by
  refine Span.covers_iff.mpr ⟨before, ?_, ?_⟩
  · rw [String.toList_ofList, String.toList_ofList]
    exact whole
  · rw [String.toList_ofList]

/-- The ends of a span that covers a text are boundaries. -/
theorem Span.Covers.within (h : span.Covers source text after) : span.Within source := by
  obtain ⟨before, rfl, rfl⟩ := h
  refine ⟨?_, ?_, ?_, ?_⟩
  · exact String.Pos.Raw.isValid_iff_exists_append.mpr
      ⟨before, text ++ after, String.append_assoc, rfl⟩
  · exact String.Pos.Raw.isValid_iff_exists_append.mpr ⟨before ++ text, after, rfl, rfl⟩
  · exact Nat.le.intro String.utf8ByteSize_append.symm
  · exact Nat.le.intro String.utf8ByteSize_append.symm

theorem utf8Len_eq_width (cs : List Char) : String.utf8Len cs = width cs := by
  induction cs with
  | nil => rfl
  | cons c cs ih => rw [String.utf8Len_cons, ih, width_cons, Nat.add_comm]

/-- What stands between the ends of a span is the text that it covers. -/
theorem Span.Covers.slice_eq (h : span.Covers source text after) : span.slice source = text := by
  obtain ⟨before, whole, rfl⟩ := Span.covers_iff.mp h
  have cut := String.extract_of_valid before text.toList after.toList
  rw [List.append_assoc, ← whole, String.ofList_toList, String.ofList_toList,
    utf8Len_eq_width, utf8Len_eq_width] at cut
  exact cut

end Covers

namespace Token.Stands

variable {source : String} {t : Token}

/-- The place of a token is a range of the source. -/
theorem within (h : t.Stands source) : t.span.Within source := by
  obtain ⟨after, covers, -⟩ := h
  exact covers.within

/-- At the place of a token stands its text. -/
theorem slice_eq (h : t.Stands source) : t.span.slice source = t.source := by
  obtain ⟨after, covers, -⟩ := h
  exact covers.slice_eq

/-- Only a lone dash is unknown. -/
theorem source_of_unknown (h : t.Stands source) (hk : t.kind = .unknown) : t.source = "-" := by
  obtain ⟨after, -, lexeme⟩ := h
  rw [hk] at lexeme
  exact String.toList_inj.mp lexeme.1

/-- There is one way to write an arrow. -/
theorem source_of_arrow (h : t.Stands source) (hk : t.kind = .arrow) : t.source = "->" := by
  obtain ⟨after, -, lexeme⟩ := h
  rw [hk] at lexeme
  exact String.toList_inj.mp lexeme

end Token.Stands

/-! ## From tiles to places -/

section Places

variable {source : String} {before text : List Char} {ts : List Token}

/-- A token that is laid behind `before` and blanks stands there, with nothing but the
    blanks in front of it. -/
theorem Token.stands_at {blanks cs rest : List Char} {kind : TokenKind}
    (whole : source.toList = before ++ (blanks ++ (cs ++ rest)))
    (hb : ∀ c ∈ blanks, isBlank c = true) (hl : Lexeme kind cs rest) :
    (Token.at kind cs (width before + width blanks)).Stands source ∧
      BlankBetween source (width before) (width before + width blanks) := by
  constructor
  · refine ⟨String.ofList rest, ?_, ?_⟩
    · rw [← List.append_assoc] at whole
      have covers := Span.covers_of_append whole
      rw [width_append] at covers
      exact covers
    · show Lexeme kind (String.ofList cs).toList (String.ofList rest).toList
      rw [String.toList_ofList, String.toList_ofList]
      exact hl
  · refine ⟨String.ofList blanks, String.ofList (cs ++ rest), ?_, Span.covers_of_append whole⟩
    intro c hc
    rw [String.toList_ofList] at hc
    exact hb c hc

/-- Laid tiles stand where they say, with blanks between them. -/
theorem Tiles.places (h : Tiles (width before) text ts)
    (whole : source.toList = before ++ text) :
    (∀ t ∈ ts, t.Stands source) ∧
      ∀ start, (⟨start, width before⟩ :: ts.map (·.span)).IsChain
        fun a b => BlankBetween source a.stop b.start := by
  generalize hw : width before = offset at h
  induction h generalizing before with
  | last hb hl _ =>
      subst hw
      obtain ⟨stands, blank⟩ := Token.stands_at whole hb hl
      refine ⟨List.forall_mem_singleton.mpr stands, ?_⟩
      intro start
      exact List.isChain_cons_cons.mpr ⟨blank, .singleton _⟩
  | @more _ blanks cs rest _ _ hb hl _ _ ih =>
      subst hw
      obtain ⟨stands, blank⟩ := Token.stands_at whole hb hl
      -- what is behind the token is laid behind everything up to its end
      have behind : source.toList = before ++ blanks ++ cs ++ rest := by
        rw [whole, List.append_assoc, List.append_assoc]
      have place : width (before ++ blanks ++ cs) = width before + width blanks + width cs := by
        rw [width_append, width_append]
      obtain ⟨later, chain⟩ := ih behind place
      refine ⟨List.forall_mem_cons.mpr ⟨stands, later⟩, ?_⟩
      intro start
      exact List.isChain_cons_cons.mpr ⟨blank, chain _⟩

/-! ## From places to tiles -/

/-- A token with nothing but blanks in front of it is laid behind `before` and these
    blanks. -/
theorem Token.Stands.exists_at {t : Token} (h : t.Stands source)
    (blank : BlankBetween source (width before) t.span.start)
    (whole : source.toList = before ++ text) :
    ∃ kind blanks cs rest, t = .at kind cs (width before + width blanks) ∧
      text = blanks ++ (cs ++ rest) ∧ (∀ c ∈ blanks, isBlank c = true) ∧ Lexeme kind cs rest := by
  obtain ⟨gap, behind, hb, covers⟩ := blank
  obtain ⟨after, stands, lexeme⟩ := h
  obtain ⟨front, split, ends⟩ := Span.covers_iff.mp covers
  obtain ⟨start, stop⟩ := Span.mk.inj ends
  -- the gap starts where the characters in front of it end
  obtain ⟨rfl, rfl⟩ := append_inj_of_width (whole.symm.trans split) start
  obtain ⟨front, split', place⟩ := Span.covers_iff.mp stands
  have same : before ++ gap.toList ++ behind.toList =
      front ++ (t.source.toList ++ after.toList) := by
    rw [List.append_assoc, ← whole, split']
  have width_eq : width (before ++ gap.toList) = width front := by
    rw [width_append, ← stop, place]
  obtain ⟨rfl, tail⟩ := append_inj_of_width same width_eq
  refine ⟨t.kind, gap.toList, t.source.toList, after.toList, ?_, by rw [tail], hb, lexeme⟩
  rw [Token.at, ← width_append, ← place, String.ofList_toList]

/-- Tokens that stand where they say, with blanks between them, are laid tiles. -/
theorem tiles_of_places (stream : IsStream ts) (stands : ∀ t ∈ ts, t.Stands source)
    {start : Nat} (gaps : (⟨start, width before⟩ :: ts.map (·.span)).IsChain
      fun a b => BlankBetween source a.stop b.start)
    (whole : source.toList = before ++ text) : Tiles (width before) text ts := by
  induction stream generalizing before text start with
  | @last t ht =>
      obtain ⟨blank, -⟩ := List.isChain_cons_cons.mp gaps
      obtain ⟨kind, blanks, cs, rest, rfl, rfl, hb, hl⟩ :=
        (stands t List.mem_cons_self).exists_at blank whole
      exact .last hb hl ht
  | @more t ts ht _ ih =>
      obtain ⟨blank, chain⟩ := List.isChain_cons_cons.mp gaps
      obtain ⟨kind, blanks, cs, rest, rfl, rfl, hb, hl⟩ :=
        (stands t List.mem_cons_self).exists_at blank whole
      have behind : source.toList = before ++ blanks ++ cs ++ rest := by
        rw [whole, List.append_assoc, List.append_assoc]
      have place : width (before ++ blanks ++ cs) = width before + width blanks + width cs := by
        rw [width_append, width_append]
      have later : ∀ u ∈ ts, u.Stands source := by
        intro u hu
        exact stands u (List.mem_cons_of_mem _ hu)
      have gaps' : (⟨width before + width blanks, width (before ++ blanks ++ cs)⟩ ::
          ts.map (·.span)).IsChain fun a b => BlankBetween source a.stop b.start := by
        rw [place]
        exact chain
      have tail := ih later gaps' behind
      rw [place] at tail
      exact .more hb hl ht tail

end Places

/-- A source has one token stream, the one that its lexer gives. -/
theorem tokenizes_iff {source : String} {ts : List Token} :
    Tokenizes source ts ↔ tokens source = ts := by
  constructor
  · intro h
    have gaps : (⟨0, width []⟩ :: ts.map (·.span)).IsChain
        fun a b => BlankBetween source a.stop b.start := h.gaps
    have tiles : Tiles (width []) source.toList ts := tiles_of_places h.ends h.stands gaps rfl
    exact tiles_iff.mp tiles
  · rintro rfl
    have tiles : Tiles (width []) source.toList (tokens source) := tiles_iff.mpr rfl
    obtain ⟨stands, gaps⟩ := tiles.places rfl
    refine ⟨isStream_tokens source, stands, gaps 0, ?_⟩
    intro t ht hk
    obtain ⟨after, covers, lexeme⟩ := stands t ht
    -- the end of the text has no characters, and none behind it
    rw [hk] at lexeme
    obtain ⟨empty, none⟩ := lexeme
    obtain ⟨before, whole, place⟩ := Span.covers_iff.mp covers
    rw [empty, none, List.append_nil, List.append_nil] at whole
    rw [place, empty, utf8ByteSize_eq_width, whole]
    rfl

/-- Every token of a source stands where it says. -/
theorem stands_of_mem {source : String} {t : Token} (h : t ∈ tokens source) : t.Stands source :=
  (tokenizes_iff.mpr rfl).stands t h

/-! ## Calls -/

/-- What a lexer answers to the call that `n` calls went before. -/
def Lexer.answer (l : Lexer) : Nat → Option Token
  | 0 => l.next?.map (·.1)
  | n + 1 => ((l.next?.map (·.2)).getD l).answer n

namespace Lexer

theorem tokens_of_none {l : Lexer} (h : l.next? = none) : l.tokens = [] :=
  congrArg Prod.fst (drain_of_none h)

/-- The next token comes before all that the lexer behind it gives. -/
theorem tokens_of_some {l l' : Lexer} {t : Token} (h : l.next? = some (t, l')) :
    l.tokens = t :: l'.tokens :=
  congrArg Prod.fst (drain_of_some h)

/-- The answers to all calls are the tokens still to come, and nothing behind them. -/
theorem answer_eq (l : Lexer) (n : Nat) : l.answer n = l.tokens[n]? := by
  induction n generalizing l with
  | zero =>
      rw [answer]
      cases h : l.next? with
      | none =>
          rw [tokens_of_none h]
          rfl
      | some r =>
          rw [tokens_of_some h]
          rfl
  | succ n ih =>
      rw [answer]
      cases h : l.next? with
      | none =>
          show l.answer n = _
          rw [ih, tokens_of_none h]
          rfl
      | some r =>
          show r.2.answer n = _
          rw [ih, tokens_of_some h]
          rfl

end Lexer

/-! ## Gaps -/

/-- Texts one behind the other, each with a gap in front of it. -/
def interleave : List String → List String → String
  | gap :: gaps, text :: texts => gap ++ text ++ interleave gaps texts
  | _, _ => ""

theorem interleave_cons (gap text : String) (gaps texts : List String) :
    interleave (gap :: gaps) (text :: texts) = gap ++ text ++ interleave gaps texts := rfl

/-- The texts of tiles and the gaps in front of them are the whole text, up to its end if
    the tiles go so far. -/
theorem Tiles.exists_gaps {offset : Nat} {text : List Char} {ts : List Token}
    (h : Tiles offset text ts) : ∃ gaps rest, gaps.length = ts.length ∧
      (∀ gap ∈ gaps, AllBlank gap) ∧
      String.ofList text = interleave gaps (ts.map (·.source)) ++ rest ∧
      ∀ t ∈ ts, t.kind = .stop → rest = "" := by
  have blank {cs : List Char} (hb : ∀ c ∈ cs, isBlank c = true) : AllBlank (String.ofList cs) := by
    intro c hc
    rw [String.toList_ofList] at hc
    exact hb c hc
  induction h with
  | @last offset blanks cs rest kind hb hl _ =>
      refine ⟨[String.ofList blanks], String.ofList rest, rfl,
        List.forall_mem_singleton.mpr (blank hb), ?_, ?_⟩
      · show _ = String.ofList blanks ++ String.ofList cs ++ "" ++ String.ofList rest
        rw [String.ofList_append, String.ofList_append, String.append_empty,
          ← String.append_assoc]
      · intro t ht hk
        obtain rfl := List.mem_singleton.mp ht
        obtain rfl : kind = .stop := hk
        rw [hl.2]
  | @more offset blanks cs rest kind ts hb hl goesOn _ ih =>
      obtain ⟨gaps, behind, count, blanks', whole, atEnd⟩ := ih
      refine ⟨String.ofList blanks :: gaps, behind, ?_, ?_, ?_, ?_⟩
      · rw [List.length_cons, List.length_cons, count]
      · exact List.forall_mem_cons.mpr ⟨blank hb, blanks'⟩
      · show _ = String.ofList blanks ++ String.ofList cs ++ interleave gaps _ ++ behind
        rw [String.ofList_append, String.ofList_append, whole, String.append_assoc,
          String.append_assoc]
      · intro t ht hk
        rcases List.mem_cons.mp ht with rfl | later
        · obtain rfl : kind = .stop := hk
          cases goesOn
        · exact atEnd t later hk

/-! ## The lexer -/

/-- The answers of a lexer to its calls are the tokens of its source and nothing behind
    them.  They are the only list of tokens in which the last one alone ends the stream,
    each is a slice of the source and a lexeme where it says, and only blanks stand before
    the first, between neighbours and behind the last, if that is the end of the text;
    with the blanks they are the whole source.  A lexeme is the longest match of the
    patterns of tokens, none of which matches at an unknown character. -/
theorem tokenizes_iff_tokens (source : String) :
    (∀ n, (Lexer.start source).answer n = (tokens source)[n]?) ∧
    (∀ ts, Tokenizes source ts ↔ ts = tokens source) ∧
    (∃ gaps rest, gaps.length = (tokens source).length ∧ (∀ gap ∈ gaps, AllBlank gap) ∧
      source = interleave gaps ((tokens source).map (·.source)) ++ rest ∧
      ∀ t ∈ tokens source, t.kind = .stop → rest = "") ∧
    (∀ kind cs rest, kind.isLast = false → (Lexeme kind cs rest ↔ IsLongestMatch kind cs rest)) ∧
    ∀ c cs, isBlank c = false →
      ((∀ (kind : TokenKind) (front rest : List Char), c :: cs = front ++ rest →
        ¬kind.Matches front) ↔ c = '-' ∧ Lexeme .unknown [c] cs) := by
  refine ⟨fun n => Lexer.answer_eq _ n, ?_, ?_, ?_, ?_⟩
  · intro ts
    rw [tokenizes_iff]
    exact eq_comm
  · have tiles : Tiles 0 source.toList (tokens source) := tiles_iff.mpr rfl
    obtain ⟨gaps, rest, found⟩ := tiles.exists_gaps
    rw [String.ofList_toList] at found
    exact ⟨gaps, rest, found⟩
  · intro kind cs rest goesOn
    exact lexeme_iff_isLongestMatch goesOn
  · intro c cs visible
    exact no_match_iff visible

/-- A name runs over an arrow, a bar ends where it stands, and at a dash that stands alone
    nothing matches. -/
theorem tokenizes_iff_tokens_swallowed :
    Tokenizes "A->\u00a0|é" [⟨.nonterminal, "A->", ⟨0, 3⟩⟩, ⟨.bar, "|", ⟨5, 6⟩⟩,
      ⟨.fragment, "é", ⟨6, 8⟩⟩, ⟨.stop, "", ⟨8, 8⟩⟩] ∧
    IsLongestMatch .nonterminal ['A', '-', '>'] ['\u00a0', '|', 'é'] ∧
    ∀ (kind : TokenKind) (front rest : List Char), ['-', 'a'] = front ++ rest →
      ¬kind.Matches front := by
  obtain ⟨-, unique, -, longest, unmatched⟩ := tokenizes_iff_tokens "A->\u00a0|é"
  have name : IsWord startsName ['A', '-', '>'] := by
    decide
  have ends : EndsWord ['\u00a0', '|', 'é'] := by
    intro c hc
    obtain rfl := Option.some.inj hc
    rfl
  refine ⟨(unique _).mpr (by decide +kernel), (longest .nonterminal _ _ rfl).mp ⟨name, ends⟩, ?_⟩
  exact (unmatched '-' ['a'] rfl).mpr ⟨rfl, rfl, by decide⟩

end FragmentGrammar
