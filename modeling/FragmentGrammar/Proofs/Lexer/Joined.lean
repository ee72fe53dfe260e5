import FragmentGrammar.Proofs.Lexer.Tiling

/-! # Joined texts

    Where a text starts matters for the places of its tokens and for nothing else
    (`Tiles.shift`), and blanks in front of it only move them.  So two texts with blanks
    between them have the tokens of the first, up to its end, and behind them the moved
    tokens of the second (`tokens_append`).  Any token but the end of a text stays what it
    is when the text goes on behind a blank (`tokens_extend`). -/

namespace FragmentGrammar

/-- The token, `n` bytes further on. -/
def Token.shift (n : Nat) (t : Token) : Token :=
  { t with span := ⟨t.span.start + n, t.span.stop + n⟩ }

namespace Token

/-- A token that is moved is the one that is cut at the other place. -/
theorem shift_at (n : Nat) (kind : TokenKind) (cs : List Char) (start : Nat) :
    (Token.at kind cs start).shift n = .at kind cs (start + n) := by
  rw [Token.shift, Token.at, Token.at, Nat.add_right_comm start n]

/-- The text of a name or a fragment is a word of its class. -/
def WellSpelled (t : Token) : Prop :=
  (t.kind = .nonterminal → IsWord startsName t.source.toList) ∧
    (t.kind = .fragment → IsWord startsFragment t.source.toList)

/-- A lexeme is spelled as its kind is. -/
theorem wellSpelled_at {kind : TokenKind} {cs rest : List Char} (h : Lexeme kind cs rest)
    (start : Nat) : (Token.at kind cs start).WellSpelled := by
  constructor
  · rintro rfl
    show IsWord startsName (String.ofList cs).toList
    rw [String.toList_ofList]
    exact h.1
  · rintro rfl
    show IsWord startsFragment (String.ofList cs).toList
    rw [String.toList_ofList]
    exact h.1

end Token

variable {blanks text other : List Char} {offset : Nat} {ts us : List Token}

/-! ## More text behind a lexeme -/

/-- A word ends at blanks, whatever is behind them. -/
theorem EndsWord.append (h : EndsWord text) (hb : ∀ c ∈ blanks, isBlank c = true)
    (apart : blanks ≠ []) (other : List Char) : EndsWord (text ++ (blanks ++ other)) := by
  cases text with
  | nil =>
      cases blanks with
      | nil => exact absurd rfl apart
      | cons c blanks =>
          intro d hd
          obtain rfl : c = d := by simpa using hd
          exact hb c List.mem_cons_self
  | cons c text =>
      intro d hd
      exact h d hd

/-- Blanks behind a text start no arrow head. -/
theorem head?_append_blanks_ne (h : text.head? ≠ some '>')
    (hb : ∀ c ∈ blanks, isBlank c = true) (apart : blanks ≠ []) (other : List Char) :
    (text ++ (blanks ++ other)).head? ≠ some '>' := by
  cases text with
  | nil =>
      cases blanks with
      | nil => exact absurd rfl apart
      | cons c blanks =>
          intro head
          obtain rfl : c = '>' := by simpa using head
          exact absurd (hb '>' List.mem_cons_self) (by decide)
  | cons c text => exact h

/-- A lexeme stays one when blanks and another text are put behind it, unless it is the
    end of its text. -/
theorem Lexeme.append {kind : TokenKind} {cs : List Char} (h : Lexeme kind cs text)
    (inside : kind ≠ .stop) (hb : ∀ c ∈ blanks, isBlank c = true) (apart : blanks ≠ [])
    (other : List Char) : Lexeme kind cs (text ++ (blanks ++ other)) := by
  cases kind with
  | nonterminal => exact ⟨h.1, h.2.append hb apart other⟩
  | fragment => exact ⟨h.1, h.2.append hb apart other⟩
  | arrow => exact h
  | bar => exact h
  | unknown => exact ⟨h.1, head?_append_blanks_ne h.2 hb apart other⟩
  | stop => exact absurd rfl inside

/-! ## Tilings -/

namespace Tiles

/-- Every token of a tiling is spelled as its kind says. -/
theorem wellSpelled (h : Tiles offset text ts) : ∀ t ∈ ts, t.WellSpelled := by
  induction h with
  | last _ hl _ =>
      intro t ht
      obtain rfl := List.mem_singleton.mp ht
      exact Token.wellSpelled_at hl _
  | more _ hl _ _ ih =>
      intro t ht
      rcases List.mem_cons.mp ht with rfl | later
      · exact Token.wellSpelled_at hl _
      · exact ih t later

/-- Where a text starts only matters for the places of its tokens. -/
theorem shift (h : Tiles offset text ts) (n : Nat) :
    Tiles (offset + n) text (ts.map (Token.shift n)) := by
  induction h with
  | last hb hl hk =>
      rw [List.map_singleton, Token.shift_at, Nat.add_right_comm]
      exact .last hb hl hk
  | more hb hl hk _ ih =>
      rw [List.map_cons, Token.shift_at, Nat.add_right_comm]
      refine .more hb hl hk ?_
      rwa [Nat.add_right_comm _ n, Nat.add_right_comm _ n]

/-- Blanks in front of a text are skipped. -/
theorem blanks_append (h : Tiles (offset + width blanks) text ts)
    (hb : ∀ c ∈ blanks, isBlank c = true) : Tiles offset (blanks ++ text) ts := by
  have all {more : List Char} (hm : ∀ c ∈ more, isBlank c = true) :
      ∀ c ∈ blanks ++ more, isBlank c = true := by
    intro c hc
    rcases List.mem_append.mp hc with old | new
    · exact hb c old
    · exact hm c new
  cases h with
  | last hm hl hk =>
      rw [← List.append_assoc, Nat.add_assoc, ← width_append]
      exact .last (all hm) hl hk
  | more hm hl hk rest =>
      rw [Nat.add_assoc offset, ← width_append] at rest ⊢
      rw [← List.append_assoc]
      exact .more (all hm) hl hk rest

/-- A text that comes to its end goes on with the text behind it, where blanks stand
    between the two. -/
theorem append {stop : Token} (h : Tiles offset text (ts ++ [stop])) (hs : stop.kind = .stop)
    (hb : ∀ c ∈ blanks, isBlank c = true) (apart : blanks ≠ [])
    (h' : Tiles (offset + width (text ++ blanks)) other us) :
    Tiles offset (text ++ (blanks ++ other)) (ts ++ us) := by
  generalize hl : ts ++ [stop] = tokens at h
  induction h generalizing ts with
  | @last offset before cs rest kind hm lexeme _ =>
      -- the only token is the end of the text, which is all blank
      obtain ⟨rfl, last⟩ : ts = [] ∧ stop = .at kind cs (offset + width before) := by
        cases ts <;> simp_all
      obtain rfl : kind = .stop := by
        rw [last] at hs
        exact hs
      obtain ⟨rfl, rfl⟩ := lexeme
      rw [List.append_nil, List.append_nil] at h' ⊢
      rw [width_append, ← Nat.add_assoc] at h'
      exact (h'.blanks_append hb).blanks_append hm
  | @more offset before cs rest kind _ hm lexeme goesOn _ ih =>
      cases ts with
      | nil =>
          obtain ⟨rfl, -⟩ := List.cons.inj hl
          have ends : kind.isLast = true := by
            rw [show kind = .stop from hs]
            rfl
          rw [goesOn] at ends
          cases ends
      | cons t ts =>
          obtain ⟨rfl, tail⟩ := List.cons.inj hl
          have place : offset + width before + width cs + width (rest ++ blanks) =
              offset + width (before ++ (cs ++ rest) ++ blanks) := by
            simp only [width_append]
            omega
          rw [← place] at h'
          have later := ih h' tail
          have inside : kind ≠ .stop := by
            rintro rfl
            cases goesOn
          rw [List.append_assoc, List.append_assoc, List.cons_append]
          exact .more hm (lexeme.append inside hb apart other) goesOn later

/-- The tokens of a text up to any but its end stay when blanks and another text are put
    behind it. -/
theorem extend {before after : List Token} {t : Token}
    (h : Tiles offset text (before ++ t :: after)) (inside : t.kind ≠ .stop)
    (hb : ∀ c ∈ blanks, isBlank c = true) (apart : blanks ≠ []) (other : List Char) :
    ∃ after', Tiles offset (text ++ (blanks ++ other)) (before ++ t :: after') := by
  generalize hl : before ++ t :: after = tokens at h
  induction h generalizing before with
  | @last offset skipped cs rest kind hm lexeme last =>
      obtain ⟨rfl, rfl⟩ : before = [] ∧ t = .at kind cs (offset + width skipped) := by
        cases before <;> simp_all
      rw [List.append_assoc, List.append_assoc]
      exact ⟨[], .last hm (lexeme.append inside hb apart other) last⟩
  | @more offset skipped cs rest kind ts hm lexeme goesOn _ ih =>
      have within : kind ≠ .stop := by
        rintro rfl
        cases goesOn
      rw [List.append_assoc, List.append_assoc]
      cases before with
      | nil =>
          -- behind the token anything may follow
          obtain ⟨rfl, -⟩ := List.cons.inj hl
          exact ⟨_, .more hm (lexeme.append within hb apart other) goesOn
            (Lexer.tiles_tokens _ _)⟩
      | cons u before =>
          obtain ⟨rfl, tail⟩ := List.cons.inj hl
          obtain ⟨after', later⟩ := ih tail
          exact ⟨after', .more hm (lexeme.append within hb apart other) goesOn later⟩

end Tiles

/-! ## Sources -/

/-- Two sources with blanks between them have the tokens of the first, up to its end,
    and behind them those of the second. -/
theorem tokens_append {source next : String} {between : String} {stop : Token}
    (h : tokens source = ts ++ [stop]) (hs : stop.kind = .stop)
    (hb : ∀ c ∈ between.toList, isBlank c = true) (apart : between ≠ "") :
    tokens (source ++ between ++ next) =
      ts ++ (tokens next).map (Token.shift (width (source ++ between).toList)) := by
  have first : Tiles 0 source.toList (ts ++ [stop]) := tiles_iff.mpr h
  have second := (tiles_iff.mpr (rfl : tokens next = _)).shift (width (source ++ between).toList)
  rw [String.toList_append] at second
  rw [← tiles_iff, String.toList_append, String.toList_append, List.append_assoc]
  exact first.append hs hb (mt String.toList_eq_nil_iff.mp apart) second

/-- The tokens of a source up to any but its end are the first ones of the source with
    blanks and more text behind it. -/
theorem tokens_extend {source between : String} {before after : List Token} {t : Token}
    (h : tokens source = before ++ t :: after) (inside : t.kind ≠ .stop)
    (hb : ∀ c ∈ between.toList, isBlank c = true) (apart : between ≠ "") (more : String) :
    ∃ after', tokens (source ++ between ++ more) = before ++ t :: after' := by
  obtain ⟨after', tiles⟩ :=
    (tiles_iff.mpr h).extend inside hb (mt String.toList_eq_nil_iff.mp apart) more.toList
  refine ⟨after', ?_⟩
  rw [← tiles_iff, String.toList_append, String.toList_append, List.append_assoc]
  exact tiles

end FragmentGrammar
