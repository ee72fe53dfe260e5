import FragmentGrammar.Token

/-! # Why a source is refused

    Three things can go wrong with a source: a character that starts no token, a token
    that does not belong where it stands, and a fragment that its compiler refuses.
    The first of them in the order of the source is reported, with its place; what the
    compiler says is passed on as it is. -/

namespace FragmentGrammar

/-- A character that starts no token. -/
structure LexError where
  found : String
  span : Span
  deriving DecidableEq

/-- A token that does not belong where it stands. -/
inductive SyntaxError where
  /-- The first token is not a nonterminal. -/
  | expectedNonterminal (found : TokenKind) (source : String) (span : Span)
  /-- The second token is not an arrow. -/
  | expectedArrow (head : String) (found : TokenKind) (source : String) (span : Span)
  /-- A later arrow has an empty body before it. -/
  | emptyChain (span : Span)
  /-- A later arrow follows something that is not a nonterminal. -/
  | chainFromOther (found : TokenKind) (source : String) (span : Span)
  deriving DecidableEq

/-- Why a source is refused, by a compiler whose errors are `E` or before it is asked. -/
inductive ParseError (E : Type) where
  | lexical (e : LexError)
  | syntactic (e : SyntaxError)
  | fragment (e : E)
  deriving DecidableEq

/-- What is said about a character that starts no token. -/
def LexError.message (e : LexError) : String :=
  "[ERROR] " ++ e.span.text ++ ": lexer could not identify token \x60" ++ e.found ++ "\x60"

/-- What is said about a token that does not belong where it stands. -/
def SyntaxError.message : SyntaxError → String
  | .expectedNonterminal found source span =>
    "[ERROR] " ++ span.text ++ ": expected NONTERMINAL to start the grammar, found " ++
      found.text ++ " \x60" ++ source ++ "\x60"
  | .expectedArrow head found source span =>
    "[ERROR] " ++ span.text ++ ": expected ARROW after \x60" ++ head ++ "\x60, found " ++
      found.text ++ " \x60" ++ source ++ "\x60"
  | .emptyChain span =>
    "[ERROR] " ++ span.text ++
      ": ARROW has no nonterminal to continue from, the body is empty"
  | .chainFromOther found source span =>
    "[ERROR] " ++ span.text ++ ": ARROW has to follow a NONTERMINAL, found " ++ found.text ++
      " \x60" ++ source ++ "\x60"

namespace ParseError

variable {E : Type}

/-- What is said about a refused source, given what the compiler says about its own
    errors. -/
def message (describe : E → String) : ParseError E → String
  | lexical e => e.message
  | syntactic e => e.message
  | fragment e => describe e

/-- The syntax error, if it is one. -/
def syntactic? : ParseError E → Option SyntaxError
  | syntactic e => some e
  | _ => none

end ParseError

end FragmentGrammar
