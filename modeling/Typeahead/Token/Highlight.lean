/-
# Highlighting line by line

An editor colours one line at a time. What crosses the end of a line is an open
block comment or an open template, so that is the state a line begins in. Each
token of a line becomes a span with its category, measured from the start of the
line.

Key definitions: `LineState`, `highlightLine`, `splitLines`, `highlightLines`.
-/
import Typeahead.Token.Scan

namespace Typeahead

open Text

/-- What is open where a line begins. -/
inductive LineState where
  | normal
  | inComment
  /-- Inside a template and `depth` open braces of an interpolation. -/
  | inTemplate (depth : Nat)
  deriving DecidableEq, Repr, Inhabited

/-- A coloured piece of one line. -/
structure HighlightSpan where
  category : TokenCategory
  kind : TokenKind
  start : Nat
  stop : Nat
  deriving DecidableEq, Repr, Inhabited

/-- The span of a kind between two offsets. -/
def HighlightSpan.ofKind (kind : TokenKind) (start stop : Nat) : HighlightSpan :=
  ⟨kind.category, kind, start, stop⟩

/-- What a token leaves open at the end of its line. -/
def LineState.after (token : Token) : LineState :=
  if !token.unterminated then .normal
  else match token.kind with
    | .comment => .inComment
    | .template => match (templateTail 0 (token.text.toList.drop 1)).2 with
      | some depth => .inTemplate depth
      | none => .normal
    | _ => .normal

/-- The spans of the tokens from `offset` on, and what they leave open. -/
def highlightFrom (offset : Nat) (text : List Char) : List HighlightSpan × LineState :=
  let tokens := (scanFrom true offset text).filter (·.kind != .endOfInput)
  (tokens.map fun t => .ofKind t.kind t.start t.stop,
    (tokens.getLast?.map LineState.after).getD .normal)

/-- The rest of a line after the first `length` characters, which are one span of
kind `kind` unless there are none. -/
def highlightAfter (kind : TokenKind) (line : List Char) (length : Nat) :
    List HighlightSpan × LineState :=
  let stop := unitLength (line.take length)
  let (spans, state) := highlightFrom stop (line.drop length)
  (.ofKind kind 0 stop :: spans, state)

/-- The spans of a line that begins in `state`, and the state it leaves. -/
def highlightLine (state : LineState) (line : List Char) : List HighlightSpan × LineState :=
  let whole (kind : TokenKind) : List HighlightSpan :=
    if line.isEmpty then [] else [.ofKind kind 0 (unitLength line)]
  match state with
  | .normal => highlightFrom 0 line
  | .inComment =>
    let (length, closed) := blockCommentTail line
    if closed then highlightAfter .comment line length else (whole .comment, .inComment)
  | .inTemplate depth =>
    match templateTail depth line with
    | (length, none) => highlightAfter .template line length
    | (_, some openBraces) => (whole .template, .inTemplate openBraces)

/-- The pieces of a text between its line feeds. -/
def splitLines : List Char → List (List Char)
  | [] => [[]]
  | '\n' :: text => [] :: splitLines text
  | c :: text => match splitLines text with
    | [] => [[c]]
    | line :: lines => (c :: line) :: lines

/-- A line without the carriage return it may end in. -/
def dropCarriageReturn (line : List Char) : List Char :=
  if line.getLast? = some '\r' then line.dropLast else line

/-- The spans of lines, the first of which begins in `state`. -/
def highlightAll : LineState → List (List Char) → List (List HighlightSpan)
  | _, [] => []
  | state, line :: lines =>
    let (spans, next) := highlightLine state line
    spans :: highlightAll next lines

/-- The spans of every line of a script. -/
def highlightLines (text : List Char) : List (List HighlightSpan) :=
  highlightAll .normal ((splitLines text).map dropCarriageReturn)

end Typeahead
