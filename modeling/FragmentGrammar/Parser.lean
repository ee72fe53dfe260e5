import FragmentGrammar.Draft
import FragmentGrammar.Lexer

/-! # Reading grammars

    A source names its start symbol, an arrow, and bodies.  A bar ends a body and
    starts another for the same head; an arrow behind a name ends the body before that
    name and makes the name the head of what follows.  Reading goes token by token and
    looks at nothing behind the first token that is refused.  What it leaves are the
    written productions and the automata that they mention; these are embedded one after
    the other to complete the grammar. -/

namespace FragmentGrammar

variable {σ E A L : Type}

/-! ## The state of the reader -/

/-- What a computation with a compiler comes to: its result, the compiler's state behind
    it, and what happened on the way. -/
structure Outcome (σ E L R : Type) where
  result : Except (ParseError E) R
  state : σ
  trace : List (Event L)

/-- How far a source has been read. -/
inductive Stage (A L : Type) where
  /-- No token has been read. -/
  | opening
  /-- The start symbol has been read. -/
  | named (start : String)
  /-- The first arrow has been read. -/
  | rules (d : Draft A L)

/-- What a token leads to. -/
inductive Progress (E A L : Type) where
  /-- The source is read on. -/
  | on (stage : Stage A L)
  /-- The source is accepted or refused. -/
  | over (result : Except (ParseError E) (Written A L))

/-- What reading one token comes to. -/
structure Turn (σ E A L : Type) where
  progress : Progress E A L
  state : σ
  trace : List (Event L)

/-! ## Reading a token -/

/-- The token is refused, and nothing happens. -/
def Turn.refuse (e : ParseError E) (s : σ) : Turn σ E A L :=
  ⟨.over (.error e), s, []⟩

/-- The error for a token that is no token. -/
def ParseError.ofToken (t : Token) : ParseError E :=
  .lexical ⟨t.source, t.span⟩

section Read

variable [Automaton A L] [Label L]

/-- Reads a token behind the first arrow. -/
def Draft.turn (c : Compiler σ E A) (d : Draft A L) (t : Token) (s : σ) : Turn σ E A L :=
  match t.kind with
  | .nonterminal =>
    ⟨.on (.rules { d.push (some (.nonterminal (.named t.source))) with previous := t }), s, []⟩
  | .fragment =>
    let r := d.resolver.resolve c t.source s
    match r.answer with
    | .error e => ⟨.over (.error (.fragment e)), r.state, r.trace⟩
    | .ok symbol =>
      -- a fragment that vanished is still the token read last
      ⟨.on (.rules { d.push symbol with previous := t, resolver := r.resolver }), r.state, r.trace⟩
  | .bar => ⟨.on (.rules { d.commit with previous := t }), s, [.production d.production]⟩
  | .arrow =>
    -- nothing is finished unless there is a name to go on with
    match d.chain t with
    | .error e => .refuse (.syntactic e) s
    | .ok (p, d') => ⟨.on (.rules { d' with previous := t }), s, [.production p]⟩
  | .stop => ⟨.over (.ok d.finish), s, [.production d.production]⟩
  | .unknown => .refuse (.ofToken t) s

/-- Reads a token. -/
def Stage.turn (c : Compiler σ E A) (stage : Stage A L) (t : Token) (s : σ) : Turn σ E A L :=
  match stage with
  | .opening =>
    match t.kind with
    | .nonterminal => ⟨.on (.named t.source), s, []⟩
    | .unknown => .refuse (.ofToken t) s
    | kind => .refuse (.syntactic (.expectedNonterminal kind t.source t.span)) s
  | .named start =>
    match t.kind with
    | .arrow => ⟨.on (.rules (.opened start t)), s, []⟩
    | .unknown => .refuse (.ofToken t) s
    | kind => .refuse (.syntactic (.expectedArrow start kind t.source t.span)) s
  | .rules d => d.turn c t s

/-- What a source comes to that ends at `size` bytes without a token that says so. -/
def Stage.close (stage : Stage A L) (size : Nat) (s : σ) : Outcome σ E L (Written A L) :=
  let refuse e := ⟨.error (.syntactic e), s, []⟩
  match stage with
  | .opening => refuse (.expectedNonterminal .stop "" ⟨size, size⟩)
  | .named start => refuse (.expectedArrow start .stop "" ⟨size, size⟩)
  | .rules d => ⟨.ok d.finish, s, [.production d.production]⟩

/-- Reads the tokens of a source of `size` bytes until one of them ends the reading.
    Each token is told about before anything that it leads to. -/
def Stage.run (c : Compiler σ E A) (size : Nat) (stage : Stage A L) :
    List Token → σ → Outcome σ E L (Written A L)
  | [], s => stage.close size s
  | t :: ts, s =>
    let turn := stage.turn c t s
    match turn.progress with
    -- the tokens behind this one are never looked at
    | .over result => ⟨result, turn.state, .token t :: turn.trace⟩
    | .on next =>
      let rest := next.run c size ts turn.state
      ⟨rest.result, rest.state, .token t :: turn.trace ++ rest.trace⟩

/-- Reads what is written in `source`. -/
def read (c : Compiler σ E A) (source : String) (s : σ) : Outcome σ E L (Written A L) :=
  Stage.opening.run c source.utf8ByteSize (tokens source) s

/-! ## Parsing -/

/-- Parses a source with a compiler for its fragments. -/
def parse (c : Compiler σ E A) (source : String) (s : σ) : Outcome σ E L (Grammar L) :=
  let r := read c source s
  let begun := .started source.utf8ByteSize :: r.trace
  match r.result with
  | .error e => ⟨.error e, r.state, begun⟩
  | .ok w => ⟨.ok w.grammar, r.state, begun ++ w.trace⟩

/-- Parses sources one after the other, going on after a failure.  Only the state of the
    compiler is handed on. -/
def parseAll (c : Compiler σ E A) : List String → σ → List (Outcome σ E L (Grammar L)) × σ
  | [], s => ([], s)
  | source :: sources, s =>
    let first := parse c source s
    let rest := parseAll c sources first.state
    (first :: rest.1, rest.2)

end Read

end FragmentGrammar
