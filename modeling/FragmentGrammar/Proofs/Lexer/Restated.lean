import FragmentGrammar.Proofs.Lexer.Joined
import Mathlib.Tactic.ByContra

/-! # Bars written as heads

    A bar may be replaced in the text by a name and an arrow with blanks around them, which
    begin another body for the name.  As the new text is set off by blanks, no other token
    notices: the stream stays what it is, but for the places and for the bars that are
    replaced (`Tiles.restate`). -/

namespace FragmentGrammar

/-! ## Restating text -/

/-- The text `cs` that starts at byte `n`, with the characters at the chosen places replaced
    by the name that is chosen there, an arrow, and blanks around them. -/
def restate (pick : Nat → Option String) : Nat → List Char → List Char
  | _, [] => []
  | n, c :: cs =>
    match pick n with
    | some name => ' ' :: (name.toList ++ ' ' :: '-' :: '>' :: ' ' ::
        restate pick (n + c.utf8Size) cs)
    | none => c :: restate pick (n + c.utf8Size) cs

section Text

variable {pick : Nat → Option String} {n : Nat} {cs ds : List Char}

/-- Text without chosen places stays as it is. -/
theorem restate_append_of_none (none : ∀ k, n ≤ k → k < n + width cs → pick k = none)
    (ds : List Char) : restate pick n (cs ++ ds) = cs ++ restate pick (n + width cs) ds := by
  induction cs generalizing n with
  | nil => rfl
  | cons c cs ih =>
      have here : pick n = .none := by
        refine none n (Nat.le_refl n) ?_
        have := c.utf8Size_pos
        rw [width_cons]
        omega
      have later : ∀ k, n + c.utf8Size ≤ k → k < n + c.utf8Size + width cs → pick k = .none := by
        intro k above below
        refine none k (by omega) ?_
        rw [width_cons]
        omega
      rw [List.cons_append, restate, here]
      show c :: restate pick (n + c.utf8Size) (cs ++ ds) = _
      rw [ih later, width_cons, Nat.add_assoc, List.cons_append]

/-- A word that ends in front of a text also ends in front of that text restated. -/
theorem EndsWord.restate (h : EndsWord cs) (pick : Nat → Option String) (n : Nat) :
    EndsWord (restate pick n cs) := by
  cases cs with
  | nil => exact h
  | cons c cs =>
      rw [FragmentGrammar.restate]
      cases pick n with
      | none =>
          intro d hd
          exact h d hd
      | some name =>
          intro d hd
          obtain rfl : ' ' = d := by simpa using hd
          decide

/-- Restating what is behind a lexeme leaves the lexeme as it is. -/
theorem Lexeme.restate {kind : TokenKind} (h : Lexeme kind cs ds) (goesOn : kind.isLast = false)
    (pick : Nat → Option String) (n : Nat) : Lexeme kind cs (restate pick n ds) := by
  cases kind with
  | nonterminal => exact ⟨h.1, h.2.restate pick n⟩
  | fragment => exact ⟨h.1, h.2.restate pick n⟩
  | arrow => exact h
  | bar => exact h
  | unknown => cases goesOn
  | stop => cases goesOn

end Text

/-- Every lexeme but the last takes up room, so what is behind it starts later. -/
theorem Lexeme.width_pos {kind : TokenKind} {cs rest : List Char} (h : Lexeme kind cs rest)
    (goesOn : kind.isLast = false) : 0 < width cs := by
  have inside : kind ≠ .stop := by
    rintro rfl
    cases goesOn
  obtain ⟨c, tail, rfl, -⟩ := h.exists_cons inside
  have := c.utf8Size_pos
  rw [width_cons]
  omega

/-! ## Restated tokens -/

/-- What becomes of the lexeme of a token: a name and an arrow, where a name is chosen for
    the place of the token. -/
def Token.restated (pick : Nat → Option String) (t : Token) : List (TokenKind × String) :=
  match pick t.span.start with
  | some name => [(.nonterminal, name), (.arrow, "->")]
  | none => [t.lexeme]

section Restated

variable {pick : Nat → Option String} {t : Token}

/-- A token that is not picked stays. -/
theorem Token.restated_of_none (h : pick t.span.start = none) : t.restated pick = [t.lexeme] := by
  rw [restated, h]

/-- A token that is picked becomes the name and an arrow. -/
theorem Token.restated_of_some {name : String} (h : pick t.span.start = some name) :
    t.restated pick = [(.nonterminal, name), (.arrow, "->")] := by
  rw [restated, h]

/-- From the byte `offset` on, only places of bars among the tokens are chosen, and for names
    only. -/
def PicksBars (pick : Nat → Option String) (offset : Nat) (ts : List Token) : Prop :=
  ∀ n name, offset ≤ n → pick n = some name →
    IsWord startsName name.toList ∧ ∃ t ∈ ts, t.kind = .bar ∧ t.span.start = n

/-- A place where no bar stands is not chosen. -/
theorem PicksBars.eq_none {offset k : Nat} {ts : List Token} (h : PicksBars pick offset ts)
    (within : offset ≤ k) (free : ∀ t ∈ ts, t.kind = .bar → t.span.start ≠ k) :
    pick k = none := by
  rw [Option.eq_none_iff_forall_ne_some]
  intro name chosen
  obtain ⟨-, t, ht, bar, start⟩ := h k name within chosen
  exact free t ht bar start

/-- Behind the first token, only places of the others are chosen. -/
theorem PicksBars.tail {offset offset' : Nat} {ts : List Token}
    (h : PicksBars pick offset (t :: ts)) (further : offset ≤ offset')
    (behind : t.span.start < offset') : PicksBars pick offset' ts := by
  intro n name within chosen
  obtain ⟨named, u, hu, bar, start⟩ := h n name (Nat.le_trans further within) chosen
  refine ⟨named, u, (List.mem_cons.mp hu).resolve_left ?_, bar, start⟩
  rintro rfl
  omega

end Restated

namespace Tiles

variable {offset : Nat} {text : List Char} {ts : List Token}

/-- Each token starts behind the ones before it. -/
theorem ascending (h : Tiles offset text ts) : (∀ t ∈ ts, offset ≤ t.span.start) ∧
    ts.Pairwise fun t u => t.span.start < u.span.start := by
  induction h with
  | @last offset blanks cs rest kind _ _ _ =>
      refine ⟨?_, List.pairwise_singleton _ _⟩
      intro t ht
      obtain rfl := List.mem_singleton.mp ht
      exact Nat.le_add_right _ _
  | @more offset blanks cs rest kind ts _ hl goesOn _ ih =>
      obtain ⟨behind, ascending⟩ := ih
      have after : ∀ u ∈ ts, offset + width blanks < u.span.start := by
        intro u hu
        have := behind u hu
        have := hl.width_pos goesOn
        omega
      refine ⟨?_, List.pairwise_cons.mpr ⟨after, ascending⟩⟩
      intro t ht
      rcases List.mem_cons.mp ht with rfl | later
      · exact Nat.le_add_right _ _
      · have := after t later
        omega

/-- A name and an arrow may be put in front of a text, with blanks around them. -/
theorem head_append {blanks : List Char} {name : String}
    (h : Tiles (offset + width (blanks ++ [' ']) + width name.toList + width [' '] +
      width ['-', '>'] + width [' ']) text ts)
    (hb : ∀ c ∈ blanks, isBlank c = true) (named : IsWord startsName name.toList) :
    ∃ us, Tiles offset (blanks ++ ' ' :: (name.toList ++ ' ' :: '-' :: '>' :: ' ' :: text)) us ∧
      us.map Token.lexeme = (.nonterminal, name) :: (.arrow, "->") :: ts.map Token.lexeme := by
  have blank : ∀ c ∈ [' '], isBlank c = true := List.forall_mem_singleton.mpr (by decide)
  have blanks_blank : ∀ c ∈ blanks ++ [' '], isBlank c = true :=
    List.forall_mem_append.mpr ⟨hb, blank⟩
  have ends : EndsWord ([' '] ++ (['-', '>'] ++ ([' '] ++ text))) := by
    intro c hc
    exact blank c (List.mem_singleton.mpr (Option.some.inj hc).symm)
  have isArrow : Lexeme .arrow ['-', '>'] ([' '] ++ text) := rfl
  have isName : Lexeme .nonterminal name.toList ([' '] ++ (['-', '>'] ++ ([' '] ++ text))) :=
    ⟨named, ends⟩
  have tiles := Tiles.more blanks_blank isName rfl (.more blank isArrow rfl (h.blanks_append blank))
  rw [List.append_assoc] at tiles
  refine ⟨_, tiles, ?_⟩
  simp [Token.lexeme, Token.at]

/-- Where bars of a text are replaced by heads, its tokens are, and the others stay. -/
theorem restate {pick : Nat → Option String} (h : Tiles offset text ts)
    (bars : PicksBars pick offset ts) (offset' : Nat) :
    ∃ us, Tiles offset' (FragmentGrammar.restate pick offset text) us ∧
      us.map Token.lexeme = ts.flatMap (Token.restated pick) := by
  induction h generalizing offset' with
  | @last offset blanks cs rest kind hb hl last =>
      have unchosen {k : Nat} (within : offset ≤ k) : pick k = none := by
        refine bars.eq_none within ?_
        intro t ht bar
        obtain rfl := List.mem_singleton.mp ht
        obtain rfl : kind = .bar := bar
        cases last
      have kept : ∀ k, offset ≤ k → k < offset + width (blanks ++ (cs ++ rest)) → pick k = none :=
        fun k within _ => unchosen within
      have same := restate_append_of_none kept []
      rw [List.append_nil, FragmentGrammar.restate, List.append_nil] at same
      rw [same]
      refine ⟨_, .last hb hl last, ?_⟩
      rw [List.flatMap_singleton, Token.restated_of_none (unchosen (Nat.le_add_right _ _))]
      rfl
  | @more offset blanks cs rest kind ts hb hl goesOn tail ih =>
      have taken := hl.width_pos goesOn
      have later : PicksBars pick (offset + width blanks + width cs) ts := by
        refine bars.tail (by omega) ?_
        show offset + width blanks < _
        omega
      -- up to the end of the first token only its start may be chosen
      have unchosen {k : Nat} (within : offset ≤ k) (below : k < offset + width blanks + width cs)
          (first : k = offset + width blanks → kind ≠ .bar) : pick k = none := by
        refine bars.eq_none within ?_
        rintro t ht bar rfl
        rcases List.mem_cons.mp ht with rfl | behind
        · exact first rfl bar
        · have := tail.ascending.1 t behind
          omega
      cases chosen : pick (offset + width blanks) with
      | none =>
          have kept : ∀ k, offset ≤ k → k < offset + width (blanks ++ cs) → pick k = none := by
            intro k within below
            by_cases start : k = offset + width blanks
            · rw [start, chosen]
            · rw [width_append] at below
              exact unchosen within (by omega) fun here => absurd here start
          have same := restate_append_of_none kept rest
          rw [List.append_assoc, List.append_assoc, width_append, ← Nat.add_assoc] at same
          obtain ⟨us, tiles, lexemes⟩ := ih later (offset' + width blanks + width cs)
          rw [same]
          refine ⟨_, .more hb (hl.restate goesOn _ _) goesOn tiles, ?_⟩
          rw [List.map_cons, List.flatMap_cons, Token.restated_of_none chosen, lexemes]
          rfl
      | some name =>
          obtain ⟨named, -⟩ := bars _ name (Nat.le_add_right _ _) chosen
          obtain rfl : kind = .bar := by
            by_contra other
            rw [unchosen (Nat.le_add_right _ _) (by omega) fun _ => other] at chosen
            cases chosen
          obtain rfl : cs = ['|'] := hl
          have kept : ∀ k, offset ≤ k → k < offset + width blanks → pick k = none :=
            fun k within below => unchosen within (by omega) fun _ => by omega
          have same := restate_append_of_none kept ('|' :: rest)
          rw [FragmentGrammar.restate, chosen] at same
          obtain ⟨us, tiles, lexemes⟩ := ih later (offset' + width (blanks ++ [' ']) +
            width name.toList + width [' '] + width ['-', '>'] + width [' '])
          obtain ⟨vs, tiles', lexemes'⟩ := tiles.head_append hb named
          rw [List.singleton_append, same]
          refine ⟨vs, tiles', ?_⟩
          rw [lexemes', lexemes, List.flatMap_cons, Token.restated_of_some chosen]
          rfl

end Tiles

/-! ## Restated sources -/

/-- The source with the characters at the chosen places replaced. -/
def restateSource (pick : Nat → Option String) (source : String) : String :=
  String.ofList (restate pick 0 source.toList)

section Source

variable {source : String} {before before' after after' : List Token} {t t' : Token}

/-- Where bars are replaced by heads, the lexemes of a source are, and the others stay. -/
theorem lexemes_restateSource {pick : Nat → Option String}
    (bars : PicksBars pick 0 (tokens source)) :
    (tokens (restateSource pick source)).map Token.lexeme =
      (tokens source).flatMap (Token.restated pick) := by
  obtain ⟨us, tiles, lexemes⟩ := (tiles_iff.mpr (rfl : tokens source = _)).restate bars 0
  have stream : tokens (restateSource pick source) = us := by
    rw [← tiles_iff, restateSource, String.toList_ofList]
    exact tiles
  rw [stream, lexemes]

/-- There is only one token that starts at a place. -/
theorem tokens_split_unique (h : tokens source = before ++ t :: after)
    (h' : tokens source = before' ++ t' :: after') (same : t.span.start = t'.span.start) :
    before = before' ∧ t = t' := by
  have ascending := (tiles_iff.mpr h).ascending.2
  rw [h] at h'
  clear h
  induction before generalizing before' with
  | nil =>
      cases before' with
      | nil => exact ⟨rfl, (List.cons.inj h').1⟩
      | cons u before' =>
          obtain ⟨rfl, rfl⟩ := List.cons.inj h'
          have mem : t' ∈ before' ++ t' :: after' := by simp
          have := List.rel_of_pairwise_cons ascending mem
          omega
  | cons u before ih =>
      obtain ⟨behind, ascending⟩ := List.pairwise_cons.mp ascending
      cases before' with
      | nil =>
          obtain ⟨rfl, rfl⟩ := List.cons.inj h'
          have := behind t (by simp)
          omega
      | cons u' before' =>
          obtain ⟨rfl, tail⟩ := List.cons.inj h'
          obtain ⟨rfl, here⟩ := ih tail ascending
          exact ⟨rfl, here⟩

end Source

end FragmentGrammar
