import FragmentGrammar.ParseError
import FragmentGrammar.Resolver
import FragmentGrammar.Written

/-! # A source half read

    Behind the first arrow of a source there is always a head in force and a body under
    construction.  A bar finishes the body; an arrow takes the name before it back from
    the body, finishes what is left, and makes the name the head.  For that the reader
    has to know what the last token was, since a fragment may leave a nonterminal, or
    nothing at all, at the end of the body. -/

namespace FragmentGrammar

variable {A L : Type}

/-- What has been read of a source since its first arrow. -/
structure Draft (A L : Type) where
  /-- The name that the source starts with. -/
  start : String
  /-- The head in force. -/
  head : Nonterminal
  /-- The body under construction. -/
  body : List (Symbol L)
  /-- The productions finished so far. -/
  written : List (Production L)
  /-- The token read last. -/
  previous : Token
  /-- What is known about fragments. -/
  resolver : Resolver A L

namespace Draft

/-- Only the start symbol and its arrow have been read. -/
def opened (name : String) (arrow : Token) : Draft A L where
  start := name
  head := .named name
  body := []
  written := []
  previous := arrow
  resolver := .empty

/-- The production of the head in force with the body under construction. -/
def production (d : Draft A L) : Production L :=
  ⟨d.head, d.body⟩

/-- Finishes the body under construction and starts an empty one. -/
def commit (d : Draft A L) : Draft A L :=
  { d with body := [], written := d.written ++ [d.production] }

/-- Adds what a token left, if anything, to the body under construction. -/
def push (d : Draft A L) (symbol : Option (Symbol L)) : Draft A L :=
  { d with body := d.body ++ symbol.toList }

/-- Takes the last nonterminal of the body back and finishes the production without it.
    The nonterminal becomes the head.  Only a name can be taken back: a fragment that
    left a nonterminal or nothing does not count. -/
def chain (d : Draft A L) (arrow : Token) : Except SyntaxError (Production L × Draft A L) :=
  if d.body.isEmpty then .error (.emptyChain arrow.span)
  else if d.previous.kind = .nonterminal then
    -- the name that was read last is the last symbol of the body
    match d.body.getLast? with
    | some (.nonterminal next) =>
      let shorter := { d with body := d.body.dropLast }
      .ok (shorter.production, { shorter.commit with head := next })
    | _ => .error (.chainFromOther d.previous.kind d.previous.source arrow.span)
  else .error (.chainFromOther d.previous.kind d.previous.source arrow.span)

/-- All that is written, once the last body is finished. -/
def finish (d : Draft A L) : Written A L :=
  ⟨.named d.start, d.commit.written, d.resolver.recorded⟩

end Draft

end FragmentGrammar
