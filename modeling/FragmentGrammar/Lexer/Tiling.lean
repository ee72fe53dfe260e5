import FragmentGrammar.Lexer

/-! # Tokens as tiles of the text

    What a token stream has to be, said without a lexer.  Tokens and the blanks between
    them cover the text from left to right without overlap; each token is a lexeme of
    its kind, stands where it says, and only the last one ends the stream. -/

namespace FragmentGrammar

/-- Characters that start a fragment. -/
def startsFragment (c : Char) : Bool :=
  !(startsName c || c = '-' || c = '|' || isBlank c)

/-- A run without blanks that starts with a character of the class `starts`. -/
def IsWord (starts : Char → Bool) (cs : List Char) : Prop :=
  (∃ c tail, cs = c :: tail ∧ starts c = true) ∧ ∀ c ∈ cs, isBlank c = false

/-- Text that a word cannot run on into: nothing, or a blank comes next. -/
def EndsWord (rest : List Char) : Prop :=
  ∀ c ∈ rest.head?, isBlank c = true

/-- `Lexeme kind cs rest`: the characters `cs` are a token of that kind when `rest`
    follows. -/
def Lexeme : TokenKind → List Char → List Char → Prop
  | .nonterminal, cs, rest => IsWord startsName cs ∧ EndsWord rest
  | .fragment, cs, rest => IsWord startsFragment cs ∧ EndsWord rest
  | .arrow, cs, _ => cs = ['-', '>']
  | .bar, cs, _ => cs = ['|']
  | .unknown, cs, rest => cs = ['-'] ∧ rest.head? ≠ some '>'
  | .stop, cs, rest => cs = [] ∧ rest = []

/-- The characters `cs` as a token of some kind that starts at byte `start`. -/
def Token.at (kind : TokenKind) (cs : List Char) (start : Nat) : Token :=
  ⟨kind, String.ofList cs, ⟨start, start + width cs⟩⟩

/-- `Tiles offset text ts`: the tokens `ts` are the stream of `text`, which starts at
    byte `offset`. -/
inductive Tiles : Nat → List Char → List Token → Prop
  /-- The last token ends the stream, whatever follows it. -/
  | last {offset : Nat} {blanks cs rest : List Char} {kind : TokenKind} :
      (∀ c ∈ blanks, isBlank c = true) → Lexeme kind cs rest → kind.isLast = true →
      Tiles offset (blanks ++ (cs ++ rest)) [.at kind cs (offset + width blanks)]
  /-- Any other token is followed by the stream of the text behind it. -/
  | more {offset : Nat} {blanks cs rest : List Char} {kind : TokenKind} {ts : List Token} :
      (∀ c ∈ blanks, isBlank c = true) → Lexeme kind cs rest → kind.isLast = false →
      Tiles (offset + width blanks + width cs) rest ts →
      Tiles offset (blanks ++ (cs ++ rest)) (.at kind cs (offset + width blanks) :: ts)

end FragmentGrammar
