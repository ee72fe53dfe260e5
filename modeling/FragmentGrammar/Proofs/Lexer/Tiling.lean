import FragmentGrammar.Lexer.Tiling

/-! # The lexer tiles its text

    A lexeme in front of what may follow it is what is cut off there
    (`Cut.of_append`), and whatever is cut off is a lexeme (`Cut.lexeme_of`).  Token by
    token, the lexer's stream is then a tiling of its text and the only one
    (`Lexer.tiles_tokens`, `Tiles.tokens_eq`).  So a text is lexed by laying tiles: what
    its tokens are is shown by an induction on the text, without the lexer. -/

namespace FragmentGrammar

/-! ## One lexeme -/

section Word

variable {c : Char} {cs rest : List Char}

/-- A fragment starts where nothing else does. -/
theorem startsFragment_iff :
    startsFragment c = true ↔
      startsName c = false ∧ c ≠ '-' ∧ c ≠ '|' ∧ isBlank c = false := by
  simp [startsFragment, and_assoc]

/-- A word runs up to the blank behind it. -/
theorem span_word (word : ∀ c ∈ cs, isBlank c = false) (ends : EndsWord rest) :
    (cs ++ rest).takeWhile (!isBlank ·) = cs ∧ (cs ++ rest).dropWhile (!isBlank ·) = rest := by
  have all : ∀ c ∈ cs, (!isBlank c) = true := by
    intro c hc
    rw [word c hc]
    rfl
  rw [List.takeWhile_append_of_pos all, List.dropWhile_append_of_pos all]
  cases rest with
  | nil => simp
  | cons d rest =>
      have blank : isBlank d = true := ends d rfl
      simp [blank]

end Word

namespace Cut

variable {c : Char} {cs rest : List Char} {kind : TokenKind}

theorem of_bar (cs : List Char) : Cut.of ('|' :: cs) = ⟨.bar, ['|'], cs⟩ := rfl

theorem of_arrow (cs : List Char) : Cut.of ('-' :: '>' :: cs) = ⟨.arrow, ['-', '>'], cs⟩ := rfl

/-- A dash without the head of an arrow is unknown. -/
theorem of_dash (h : cs.head? ≠ some '>') : Cut.of ('-' :: cs) = ⟨.unknown, ['-'], cs⟩ := by
  rw [Cut.of]
  rintro tail rfl
  exact h rfl

/-- Any other character starts a word that goes on to the next blank. -/
theorem of_word (hbar : c ≠ '|') (hdash : c ≠ '-') (cs : List Char) :
    Cut.of (c :: cs) = ⟨if startsName c then .nonterminal else .fragment,
      c :: cs.takeWhile (!isBlank ·), cs.dropWhile (!isBlank ·)⟩ := by
  rw [Cut.of]
  · exact hbar
  · exact fun _ h _ => hdash h
  · exact hdash

/-- A word that starts with neither a bar nor a dash is cut off as a whole. -/
theorem of_word_append (hbar : c ≠ '|') (hdash : c ≠ '-')
    (word : ∀ d ∈ c :: cs, isBlank d = false) (ends : EndsWord rest) :
    Cut.of (c :: cs ++ rest) =
      ⟨if startsName c then .nonterminal else .fragment, c :: cs, rest⟩ := by
  obtain ⟨taken, left⟩ := span_word (fun d hd => word d (List.mem_cons_of_mem _ hd)) ends
  rw [List.cons_append, of_word hbar hdash, taken, left]

/-- A lexeme is what is cut off in front of what may follow it. -/
theorem of_append (h : Lexeme kind cs rest) : Cut.of (cs ++ rest) = ⟨kind, cs, rest⟩ := by
  cases kind with
  | nonterminal =>
      obtain ⟨⟨⟨c, tail, rfl, starts⟩, word⟩, ends⟩ := h
      have hbar : c ≠ '|' := by
        rintro rfl
        exact absurd starts (by decide)
      have hdash : c ≠ '-' := by
        rintro rfl
        exact absurd starts (by decide)
      rw [of_word_append hbar hdash word ends, if_pos starts]
  | fragment =>
      obtain ⟨⟨⟨c, tail, rfl, starts⟩, word⟩, ends⟩ := h
      obtain ⟨name, hdash, hbar, -⟩ := startsFragment_iff.mp starts
      rw [of_word_append hbar hdash word ends, name]
      rfl
  | arrow =>
      obtain rfl : cs = ['-', '>'] := h
      exact of_arrow rest
  | bar =>
      obtain rfl : cs = ['|'] := h
      exact of_bar rest
  | unknown =>
      obtain ⟨rfl, single⟩ := h
      exact of_dash single
  | stop =>
      obtain ⟨rfl, rfl⟩ := h
      rfl

/-- Whatever is cut off is a lexeme, where the text starts with no blank. -/
theorem lexeme_of {text : List Char} (start : ∀ c ∈ text.head?, isBlank c = false) :
    Lexeme (Cut.of text).kind (Cut.of text).lexeme (Cut.of text).rest := by
  fun_cases Cut.of text with
  | case1 => exact ⟨rfl, rfl⟩
  | case2 cs => exact rfl
  | case3 cs => exact rfl
  | case4 cs single =>
      refine ⟨rfl, ?_⟩
      intro h
      obtain ⟨tail, rfl⟩ := List.head?_eq_some_iff.mp h
      exact single tail rfl
  | case5 c cs hbar _ hdash =>
      have first : isBlank c = false := start c rfl
      have word : ∀ d ∈ c :: cs.takeWhile (!isBlank ·), isBlank d = false := by
        intro d hd
        rcases List.mem_cons.mp hd with rfl | later
        · exact first
        · have kept := List.all_eq_true.mp (List.all_takeWhile (p := (!isBlank ·)) (l := cs)) d later
          simpa using kept
      have ends : EndsWord (cs.dropWhile (!isBlank ·)) := by
        intro d hd
        have left := List.head?_dropWhile_not (!isBlank ·) cs
        rw [Option.mem_def.mp hd] at left
        simpa using left
      -- a word is a name or a fragment by its first character alone
      cases hs : startsName c with
      | true => exact ⟨⟨⟨c, _, rfl, hs⟩, word⟩, ends⟩
      | false =>
          exact ⟨⟨⟨c, _, rfl, startsFragment_iff.mpr ⟨hs, hdash, hbar, first⟩⟩, word⟩, ends⟩

end Cut

namespace Lexeme

variable {kind : TokenKind} {blanks cs rest : List Char}

/-- A lexeme starts with a character that is not blank, unless it is the end of the
    text. -/
theorem exists_cons (h : Lexeme kind cs rest) (hk : kind ≠ .stop) :
    ∃ c tail, cs = c :: tail ∧ isBlank c = false := by
  cases kind with
  | nonterminal =>
      obtain ⟨⟨⟨c, tail, rfl, -⟩, word⟩, -⟩ := h
      exact ⟨c, tail, rfl, word c List.mem_cons_self⟩
  | fragment =>
      obtain ⟨⟨⟨c, tail, rfl, -⟩, word⟩, -⟩ := h
      exact ⟨c, tail, rfl, word c List.mem_cons_self⟩
  | arrow => exact ⟨'-', ['>'], h, by decide⟩
  | bar => exact ⟨'|', [], h, by decide⟩
  | unknown => exact ⟨'-', [], h.1, by decide⟩
  | stop => exact absurd rfl hk

/-- The blanks in front of a lexeme end where it starts. -/
theorem span_blanks (h : Lexeme kind cs rest) (hb : ∀ c ∈ blanks, isBlank c = true) :
    (blanks ++ (cs ++ rest)).takeWhile isBlank = blanks ∧
      (blanks ++ (cs ++ rest)).dropWhile isBlank = cs ++ rest := by
  rw [List.takeWhile_append_of_pos hb, List.dropWhile_append_of_pos hb]
  by_cases hk : kind = .stop
  · subst hk
    obtain ⟨rfl, rfl⟩ := h
    simp
  · obtain ⟨c, tail, rfl, visible⟩ := h.exists_cons hk
    simp [visible]

end Lexeme

/-! ## All lexemes -/

namespace Lexer

/-- The stream of a text is its first token and, unless that is the last, the stream
    of the text behind it. -/
theorem tokens_eq {kind : TokenKind} {blanks cs rest : List Char} (offset : Nat)
    (hb : ∀ c ∈ blanks, isBlank c = true) (h : Lexeme kind cs rest) :
    (⟨blanks ++ (cs ++ rest), offset, false⟩ : Lexer).tokens =
      .at kind cs (offset + width blanks) ::
        if kind.isLast then []
        else (⟨rest, offset + width blanks + width cs, false⟩ : Lexer).tokens := by
  obtain ⟨taken, left⟩ := h.span_blanks hb
  have next : (⟨blanks ++ (cs ++ rest), offset, false⟩ : Lexer).next? =
      some (.at kind cs (offset + width blanks),
        ⟨rest, offset + width blanks + width cs, kind.isLast⟩) := by
    rw [next?]
    simp only [taken, left, Cut.of_append h]
    rfl
  rw [tokens, drain_of_some next]
  cases hk : kind.isLast with
  | true => rw [drain_of_none rfl, if_pos rfl]
  | false => rfl

/-- The stream of a lexer tiles what it has not read yet. -/
theorem tiles_tokens (text : List Char) (offset : Nat) :
    Tiles offset text (⟨text, offset, false⟩ : Lexer).tokens := by
  induction hn : text.length using Nat.strongRecOn generalizing text offset with
  | ind n ih =>
      have start : ∀ c ∈ (text.dropWhile isBlank).head?, isBlank c = false := by
        intro c hc
        have left := List.head?_dropWhile_not isBlank text
        rwa [Option.mem_def.mp hc] at left
      have blanks : ∀ c ∈ text.takeWhile isBlank, isBlank c = true :=
        List.all_eq_true.mp List.all_takeWhile
      have whole := Cut.lexeme_append_rest (text.dropWhile isBlank)
      have lexeme := Cut.lexeme_of start
      have shorter : (Cut.of (text.dropWhile isBlank)).kind ≠ .stop → _ := Cut.rest_length_lt
      have dropped := (List.dropWhile_sublist isBlank (l := text)).length_le
      cases hcut : Cut.of (text.dropWhile isBlank) with
      | mk kind cs rest =>
          rw [hcut] at whole lexeme shorter
          have split : text = text.takeWhile isBlank ++ (cs ++ rest) := by
            rw [whole, List.takeWhile_append_dropWhile]
          have tokens := tokens_eq offset blanks lexeme
          rw [← split] at tokens
          rw [tokens]
          cases hk : kind.isLast with
          | true =>
              have tile : Tiles offset _ _ := .last blanks lexeme hk
              rwa [← split] at tile
          | false =>
              have goesOn : kind ≠ .stop := by
                rintro rfl
                cases hk
              have less : rest.length < (text.dropWhile isBlank).length := shorter goesOn
              have tail := ih rest.length (by omega) rest
                (offset + width (text.takeWhile isBlank) + width cs) rfl
              have tile := Tiles.more blanks lexeme hk tail
              rwa [← split] at tile

end Lexer

/-- A text has one tiling, the stream of its lexer. -/
theorem Tiles.tokens_eq {offset : Nat} {text : List Char} {ts : List Token}
    (h : Tiles offset text ts) : (⟨text, offset, false⟩ : Lexer).tokens = ts := by
  induction h with
  | last hb hl hk => rw [Lexer.tokens_eq _ hb hl, if_pos hk]
  | more hb hl hk _ ih => rw [Lexer.tokens_eq _ hb hl, hk, ih, if_neg Bool.false_ne_true]

/-- A tiling of the source is its token list. -/
theorem tiles_iff {source : String} {ts : List Token} :
    Tiles 0 source.toList ts ↔ tokens source = ts := by
  constructor
  · exact Tiles.tokens_eq
  · rintro rfl
    exact Lexer.tiles_tokens source.toList 0

end FragmentGrammar
