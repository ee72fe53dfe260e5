import FragmentGrammar.Text.Width

/-! # Tokens

    Grammar text is a sequence of nonterminals, fragments, arrows and bars.  Every
    token keeps its text and the place where it stands, counted in bytes. -/

namespace FragmentGrammar

/-- What a token is. -/
inductive TokenKind where
  /-- The name of a nonterminal. -/
  | nonterminal
  /-- A terminal or a regular expression, to be compiled. -/
  | fragment
  /-- The arrow between a head and its bodies. -/
  | arrow
  /-- The bar between two bodies of one head. -/
  | bar
  /-- A character that starts no token. -/
  | unknown
  /-- The end of the text. -/
  | stop
  deriving DecidableEq

/-- The name of a token kind in messages. -/
def TokenKind.text : TokenKind → String
  | .nonterminal => "NONTERMINAL"
  | .fragment => "TERMINAL_OR_REGEX"
  | .arrow => "ARROW"
  | .bar => "OR"
  | .unknown => "ERROR"
  | .stop => "END"

/-- No token follows an unknown character or the end of the text. -/
def TokenKind.isLast (kind : TokenKind) : Bool :=
  kind = .unknown || kind = .stop

/-- A stretch of text: the byte where it starts and the byte after its last one. -/
structure Span where
  start : Nat
  stop : Nat
  deriving DecidableEq

/-- A span as it stands in messages. -/
def Span.text (span : Span) : String :=
  "(" ++ span.start.repr ++ ", " ++ span.stop.repr ++ ")"

/-- A token with its text and its place. -/
structure Token where
  kind : TokenKind
  source : String
  span : Span
  deriving DecidableEq

namespace Token

/-- The number of bytes that the token takes. -/
def length (t : Token) : Nat :=
  t.span.stop - t.span.start

/-- The token takes no bytes, as only the end of the text does. -/
def isEmpty (t : Token) : Bool :=
  t.length = 0

/-- A token as it is shown by itself. -/
def text (t : Token) : String :=
  t.kind.text ++ "(" ++ t.source ++ ")"

/-- The part of a token that does not depend on where it stands. -/
def lexeme (t : Token) : TokenKind × String :=
  (t.kind, t.source)

end Token

end FragmentGrammar
