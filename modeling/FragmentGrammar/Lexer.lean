import FragmentGrammar.Text.Blank
import FragmentGrammar.Token

/-! # The lexer

    Blanks separate tokens and are never part of one.  A name starts with `#` or a
    capital letter and a fragment with any other character but `-` and `|`; both run
    on to the next blank, so they may hold arrows and bars.  Arrows and bars need no
    blanks around them.  The one thing that can go wrong is a dash that no `>` follows:
    it is reported and ends the stream. -/

namespace FragmentGrammar

/-- Characters that start the name of a nonterminal. -/
def startsName (c : Char) : Bool :=
  c = '#' || c.isUpper

/-- A token cut off the front of text: its kind, its characters, and what is left. -/
structure Cut where
  kind : TokenKind
  lexeme : List Char
  rest : List Char

/-- Cuts the first token off text that starts with no blank. -/
def Cut.of : List Char → Cut
  | [] => ⟨.stop, [], []⟩
  | '|' :: cs => ⟨.bar, ['|'], cs⟩
  | '-' :: '>' :: cs => ⟨.arrow, ['-', '>'], cs⟩
  | '-' :: cs => ⟨.unknown, ['-'], cs⟩
  | c :: cs =>
    ⟨if startsName c then .nonterminal else .fragment,
      c :: cs.takeWhile (!isBlank ·), cs.dropWhile (!isBlank ·)⟩

/-- The token and what is left make up the text that they were cut from. -/
theorem Cut.lexeme_append_rest (cs : List Char) : (Cut.of cs).lexeme ++ (Cut.of cs).rest = cs := by
  fun_cases Cut.of cs <;> simp [*]

/-- Only the end of the text is cut off without taking a character. -/
theorem Cut.rest_length_lt {cs : List Char} (h : (Cut.of cs).kind ≠ .stop) :
    (Cut.of cs).rest.length < cs.length := by
  have whole := congrArg List.length (Cut.lexeme_append_rest cs)
  have taken : 0 < (Cut.of cs).lexeme.length := by
    fun_cases Cut.of cs <;> simp_all [Cut.of]
  simp only [List.length_append] at whole
  omega

/-- A lexer at some point of its text: what it has not read yet, the byte where that
    starts, and whether the last token has been given out. -/
structure Lexer where
  rest : List Char
  offset : Nat
  done : Bool

namespace Lexer

/-- A lexer at the start of `source`. -/
def start (source : String) : Lexer :=
  ⟨source.toList, 0, false⟩

/-- The next token with the lexer behind it, as long as the last one is not given out. -/
def next? (l : Lexer) : Option (Token × Lexer) :=
  if l.done then none
  else
    let start := l.offset + width (l.rest.takeWhile isBlank)
    let cut := Cut.of (l.rest.dropWhile isBlank)
    let stop := start + width cut.lexeme
    some (⟨cut.kind, String.ofList cut.lexeme, ⟨start, stop⟩⟩, ⟨cut.rest, stop, cut.kind.isLast⟩)

/-- A bound on the number of tokens still to come. -/
def remaining (l : Lexer) : Nat :=
  if l.done then 0 else l.rest.length + 1

/-- Every token brings the lexer closer to its end. -/
theorem remaining_lt_of_next? {l l' : Lexer} {t : Token} (h : l.next? = some (t, l')) :
    l'.remaining < l.remaining := by
  unfold next? at h
  split at h
  · cases h
  next waiting =>
    obtain ⟨rfl, rfl⟩ := by simpa using h
    have shorter := (List.dropWhile_sublist (p := isBlank) (l := l.rest)).length_le
    simp only [remaining, waiting]
    split
    · simp
    next more =>
      have : (Cut.of (l.rest.dropWhile isBlank)).kind ≠ .stop := by
        intro hk
        simp [hk, TokenKind.isLast] at more
      have := Cut.rest_length_lt this
      simp only [Bool.false_eq_true, if_false]
      omega

/-- All tokens still to come, and the lexer behind the last of them. -/
def drain (l : Lexer) : List Token × Lexer :=
  match _ : l.next? with
  | none => ([], l)
  | some (t, l') =>
    let r := drain l'
    (t :: r.1, r.2)
termination_by l.remaining
decreasing_by exact remaining_lt_of_next? ‹_›

/-- A lexer that is done has nothing left to give. -/
theorem drain_of_none {l : Lexer} (h : l.next? = none) : l.drain = ([], l) := by
  rw [drain]
  split
  · rfl
  · simp_all

/-- The next token comes first, and the lexer behind it gives the others. -/
theorem drain_of_some {l l' : Lexer} {t : Token} (h : l.next? = some (t, l')) :
    l.drain = (t :: l'.drain.1, l'.drain.2) := by
  rw [drain]
  split <;> simp_all

/-- All tokens still to come. -/
def tokens (l : Lexer) : List Token :=
  l.drain.1

end Lexer

/-- The tokens of `source`, the last one included. -/
def tokens (source : String) : List Token :=
  (Lexer.start source).tokens

end FragmentGrammar
