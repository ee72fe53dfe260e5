import FragmentGrammar.Proofs.Lexer.Positions

/-! # Blanks between tokens

    The kinds and texts of a stream are spelled in one way (`Tiles.isSpelling`), and any
    list that is spelled so comes back from its texts, whatever blanks are put between
    them (`IsSpelling.tokens_eq`): a blank ends a word, and nothing else that follows a
    token changes it.  So which blanks a source has does not matter to its lexemes. -/

namespace FragmentGrammar

/-- Kinds with texts that match, up to the end of the text or an unknown character. -/
inductive IsSpelling : List (TokenKind × String) → Prop
  | stop : IsSpelling [(.stop, "")]
  | unknown : IsSpelling [(.unknown, "-")]
  | more {kind : TokenKind} {text : String} {xs : List (TokenKind × String)} :
      kind.Matches text.toList → IsSpelling xs → IsSpelling ((kind, text) :: xs)

/-- The texts of lexemes.  The end of the text has none. -/
def spelled (xs : List (TokenKind × String)) : List String :=
  (xs.filter (·.1 ≠ .stop)).map (·.2)

/-- Gaps to be put in front of the texts, and one to be put behind them: blanks, and at
    least one of them between two texts. -/
structure Separates (gaps texts : List String) (after : String) : Prop where
  length : gaps.length = texts.length
  blank : ∀ gap ∈ gaps, AllBlank gap
  apart : ∀ gap ∈ gaps.tail, gap ≠ ""
  behind : AllBlank after

/-- The source is the texts with blanks between them, and any blanks around them. -/
def IsSpaced (texts : List String) (source : String) : Prop :=
  ∃ gaps after, Separates gaps texts after ∧ source = interleave gaps texts ++ after

section Spelled

variable {kind : TokenKind} {text : String} {xs : List (TokenKind × String)}

theorem spelled_cons_of_ne (h : kind ≠ .stop) :
    spelled ((kind, text) :: xs) = text :: spelled xs := by
  simp [spelled, h]

/-- Whatever matches a pattern does not end the text. -/
theorem TokenKind.Matches.ne_stop {cs : List Char} (h : kind.Matches cs) : kind ≠ .stop := by
  rintro rfl
  cases h

/-- Texts that match have all their kinds spelled, with the end of the text behind them. -/
theorem IsSpelling.of_matches (h : ∀ x ∈ xs, x.1.Matches x.2.toList) :
    IsSpelling (xs ++ [(.stop, "")]) := by
  induction xs with
  | nil => exact .stop
  | cons x xs ih =>
      obtain ⟨here, later⟩ := List.forall_mem_cons.mp h
      exact .more here (ih later)

/-- All lexemes but the end of the text are spelled out. -/
theorem spelled_of_matches (h : ∀ x ∈ xs, x.1.Matches x.2.toList) :
    spelled (xs ++ [(.stop, "")]) = xs.map (·.2) := by
  induction xs with
  | nil => rfl
  | cons x xs ih =>
      obtain ⟨here, later⟩ := List.forall_mem_cons.mp h
      rw [List.cons_append, spelled_cons_of_ne here.ne_stop, ih later, List.map_cons]

end Spelled

/-- The lexemes of tiles are spelled as their kinds say. -/
theorem Tiles.isSpelling {offset : Nat} {text : List Char} {ts : List Token}
    (h : Tiles offset text ts) : IsSpelling (ts.map Token.lexeme) := by
  induction h with
  | @last offset blanks cs rest kind _ hl hk =>
      cases kind with
      | unknown =>
          obtain ⟨rfl, -⟩ := hl
          exact .unknown
      | stop =>
          obtain ⟨rfl, -⟩ := hl
          exact .stop
      | _ => cases hk
  | @more offset blanks cs rest kind ts _ hl goesOn _ ih =>
      have matched : kind.Matches (String.ofList cs).toList := by
        rw [String.toList_ofList]
        exact .of_lexeme hl goesOn
      exact .more matched ih

/-- The lexemes of any source make a spelling. -/
theorem isSpelling_tokens (source : String) : IsSpelling ((tokens source).map Token.lexeme) :=
  Tiles.isSpelling (tiles_iff.mpr rfl)

/-! ## Texts with blanks between them -/

section Spaced

variable {gap text after : String} {gaps texts : List String}

/-- A word ends at a gap, whatever stands behind it. -/
theorem AllBlank.endsWord {rest : List Char} (h : AllBlank gap) (some : gap ≠ "") :
    EndsWord (gap.toList ++ rest) := by
  intro c hc
  cases hg : gap.toList with
  | nil => exact absurd (String.toList_eq_nil_iff.mp hg) some
  | cons d tail =>
      rw [hg] at hc
      obtain rfl : d = c := Option.some.inj hc
      exact h d (by simp [hg])

namespace Separates

/-- What comes behind the first text is separated by gaps that are not empty. -/
theorem tail (h : Separates (gap :: gaps) (text :: texts) after) :
    Separates gaps texts after where
  length := Nat.succ.inj h.length
  blank := (List.forall_mem_cons.mp h.blank).2
  apart g hg := h.apart g (List.mem_of_mem_tail hg)
  behind := h.behind

/-- A word ends in front of what comes behind the first text. -/
theorem endsWord (h : Separates (gap :: gaps) (text :: texts) after) :
    EndsWord (interleave gaps texts ++ after).toList := by
  have count := h.tail.length
  cases gaps with
  | nil =>
      obtain rfl := List.length_eq_zero_iff.mp count.symm
      intro c hc
      have none : interleave [] [] ++ after = after := String.empty_append
      rw [none] at hc
      exact h.behind c (List.mem_of_mem_head? hc)
  | cons next gaps =>
      cases texts with
      | nil => cases count
      | cons text texts =>
          have blank := h.tail.blank next List.mem_cons_self
          have some := h.apart next List.mem_cons_self
          rw [interleave_cons, String.append_assoc, String.append_assoc, String.toList_append]
          exact blank.endsWord some

end Separates

/-- What is spelled can be laid out again, whatever blanks separate it. -/
theorem IsSpelling.exists_tiles {xs : List (TokenKind × String)} (h : IsSpelling xs)
    (separates : Separates gaps (spelled xs) after) (offset : Nat) :
    ∃ ts, Tiles offset (interleave gaps (spelled xs) ++ after).toList ts ∧
      ts.map Token.lexeme = xs := by
  induction h generalizing gaps offset with
  | stop =>
      have count := separates.length
      obtain rfl := List.length_eq_zero_iff.mp count
      have whole : (interleave [] (spelled [(.stop, "")]) ++ after).toList =
          after.toList ++ ([] ++ []) := by
        show ("" ++ after).toList = _
        rw [String.empty_append, List.append_nil, List.append_nil]
      have lexeme : Lexeme .stop [] [] := ⟨rfl, rfl⟩
      rw [whole]
      exact ⟨_, .last separates.behind lexeme rfl, rfl⟩
  | unknown =>
      obtain ⟨gap, rfl⟩ := List.length_eq_one_iff.mp separates.length
      have whole : (interleave [gap] (spelled [(.unknown, "-")]) ++ after).toList =
          gap.toList ++ (['-'] ++ after.toList) := by
        show (gap ++ "-" ++ "" ++ after).toList = _
        rw [String.append_empty, String.append_assoc, String.toList_append, String.toList_append]
        rfl
      -- only blanks stand behind the dash
      have single : after.toList.head? ≠ some '>' := by
        intro h
        have blank := separates.behind '>' (List.mem_of_mem_head? h)
        revert blank
        decide
      have lexeme : Lexeme .unknown ['-'] after.toList := ⟨rfl, single⟩
      rw [whole]
      exact ⟨_, .last (separates.blank gap List.mem_cons_self) lexeme rfl, rfl⟩
  | @more kind text xs matched _ ih =>
      rw [spelled_cons_of_ne matched.ne_stop] at separates ⊢
      cases gaps with
      | nil => cases separates.length
      | cons gap gaps =>
          have whole : (interleave (gap :: gaps) (text :: spelled xs) ++ after).toList =
              gap.toList ++ (text.toList ++ (interleave gaps (spelled xs) ++ after).toList) := by
            rw [interleave_cons, String.append_assoc, String.append_assoc, String.toList_append,
              String.toList_append]
          obtain ⟨ts, tiles, lexemes⟩ :=
            ih separates.tail (offset + width gap.toList + width text.toList)
          have lexeme := matched.lexeme separates.endsWord
          have blank := separates.blank gap List.mem_cons_self
          rw [whole]
          refine ⟨_, .more blank lexeme matched.isLast tiles, ?_⟩
          rw [List.map_cons, lexemes, Token.at, Token.lexeme, String.ofList_toList]

/-- What is spelled comes back from its texts, whatever blanks separate them. -/
theorem IsSpelling.tokens_eq {xs : List (TokenKind × String)} (h : IsSpelling xs)
    {source : String} (spaced : IsSpaced (spelled xs) source) :
    (tokens source).map Token.lexeme = xs := by
  obtain ⟨gaps, after, separates, rfl⟩ := spaced
  obtain ⟨ts, tiles, lexemes⟩ := h.exists_tiles separates 0
  rw [tiles_iff.mp tiles]
  exact lexemes

end Spaced

end FragmentGrammar
