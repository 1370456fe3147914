/-
# The extent of one token

How far the token that begins with a given character reaches. Every function
here counts characters and looks only ahead; none fails. A string ends at its
quote or, unterminated, before the end of the line; a template and a block
comment run on to their end or to the end of the text.

Key definitions: `lineCommentLength`, `blockCommentTail`, `stringTail`,
`templateTail`, `numberLength`, `Lexeme.read`.
Key theorem: `two_le_commentExtent`.
-/
import Typeahead.Token.Kind
import Typeahead.Text.Identifier
import Typeahead.Text.Blank

namespace Typeahead

open Text

/-- A comment begins here. -/
def startsComment : List Char → Bool
  | '/' :: '/' :: _ => true
  | '/' :: '*' :: _ => true
  | _ => false

/-- The characters up to the end of the line: before a line feed, or before a
carriage return and line feed. -/
def lineCommentLength : List Char → Nat
  | [] => 0
  | '\n' :: _ => 0
  | '\r' :: '\n' :: _ => 0
  | _ :: text => lineCommentLength text + 1

/-- The characters up to and with the first `*/`, and whether there is one. -/
def blockCommentTail : List Char → Nat × Bool
  | [] => (0, false)
  | '*' :: '/' :: _ => (2, true)
  | _ :: text => ((blockCommentTail text).1 + 1, (blockCommentTail text).2)

/-- The length of the comment that begins a text, and whether it is closed. -/
def commentExtent : List Char → Nat × Bool
  | '/' :: '/' :: text => (lineCommentLength text + 2, true)
  | '/' :: '*' :: text => ((blockCommentTail text).1 + 2, (blockCommentTail text).2)
  | _ => (0, true)

/-- A comment has at least the two characters that begin it. -/
theorem two_le_commentExtent {text : List Char} (h : startsComment text = true) :
    2 ≤ (commentExtent text).1 := by
  unfold startsComment at h
  split at h <;> simp_all [commentExtent]

/-- The rest of a string after its opening quote, and whether it is closed. A
backslash takes the next character with it, whatever it is. -/
def stringTail (quote : Char) : List Char → Nat × Bool
  | [] => (0, false)
  | ['\\'] => (1, false)
  | '\\' :: _ :: text => ((stringTail quote text).1 + 2, (stringTail quote text).2)
  | c :: text =>
    if c = quote then (1, true)
    else if isLineTerminator c then (0, false)
    else ((stringTail quote text).1 + 1, (stringTail quote text).2)

/-- The rest of a template inside `depth` open braces: its length, and the braces
left open where the text ends first. `${` opens an interpolation and plain
braces nest inside one; what an interpolation holds is not looked at. -/
def templateTail (depth : Nat) : List Char → Nat × Option Nat
  | [] => (0, some depth)
  | ['\\'] => (1, some depth)
  | '\\' :: _ :: text => ((templateTail depth text).1 + 2, (templateTail depth text).2)
  | '$' :: '{' :: text =>
    ((templateTail (depth + 1) text).1 + 2, (templateTail (depth + 1) text).2)
  | c :: text =>
    if c = '\x60' ∧ depth = 0 then (1, none)
    else
      let inner :=
        if c = '{' ∧ 0 < depth then depth + 1
        else if c = '}' then depth - 1
        else depth
      ((templateTail inner text).1 + 1, (templateTail inner text).2)

/-- The digits and separators a text begins with. -/
def digitRun (isDigit : Char → Bool) (text : List Char) : Nat :=
  (text.takeWhile fun c => isDigit c || c == '_').length

/-- The digits that go with a radix letter. -/
def radixDigit? : Char → Option (Char → Bool)
  | 'x' | 'X' => some fun c => c.isDigit || ('a' ≤ c && c ≤ 'f') || ('A' ≤ c && c ≤ 'F')
  | 'o' | 'O' => some fun c => '0' ≤ c && c ≤ '7'
  | 'b' | 'B' => some fun c => c == '0' || c == '1'
  | _ => none

/-- The exponent a text begins with: `e`, a sign if there is one, and digits. -/
def exponentLength : List Char → Nat
  | e :: sign :: digit :: text =>
    if e = 'e' ∨ e = 'E' then
      if sign = '+' ∨ sign = '-' then
        if digit.isDigit then 2 + digitRun Char.isDigit (digit :: text) else 0
      else if sign.isDigit then 1 + digitRun Char.isDigit (sign :: digit :: text)
      else 0
    else 0
  | [e, digit] => if (e = 'e' ∨ e = 'E') ∧ digit.isDigit then 2 else 0
  | _ => 0

/-- The fraction a text begins with: a point and digits. -/
def fractionLength : List Char → Nat
  | '.' :: text => 1 + digitRun Char.isDigit text
  | _ => 0

/-- The `n` that marks a big integer. -/
def bigSuffixLength : List Char → Nat
  | 'n' :: _ => 1
  | _ => 0

/-- The decimal number a text begins with, without the `n` of a big integer. -/
def decimalLength (text : List Char) : Nat :=
  let whole := digitRun Char.isDigit text
  let fraction := fractionLength (text.drop whole)
  whole + fraction + exponentLength (text.drop (whole + fraction))

/-- The number a text begins with. -/
def numberLength (text : List Char) : Nat :=
  let digits := match text with
    | '0' :: letter :: rest =>
      match radixDigit? letter with
      | some isDigit => 2 + digitRun isDigit rest
      | none => decimalLength text
    | _ => decimalLength text
  digits + bigSuffixLength (text.drop digits)

/-- A token without its place: its kind, the characters it takes after the one it
begins with, and whether it lacks its end. -/
structure Lexeme where
  kind : TokenKind
  extra : Nat
  unterminated : Bool := false
  deriving DecidableEq, Repr, Inhabited

namespace Lexeme

/-- The token that begins with `c`, where `rest` follows. Comments are tokens only
if they are kept. -/
def read (keepComments : Bool) (c : Char) (rest : List Char) : Lexeme :=
  if keepComments && startsComment (c :: rest) then
    let (length, closed) := commentExtent (c :: rest)
    ⟨.comment, length - 1, !closed⟩
  else if c = '\x27' ∨ c = '\x22' then
    let (length, closed) := stringTail c rest
    ⟨.string, length, !closed⟩
  else if c = '\x60' then
    let (length, openBraces) := templateTail 0 rest
    ⟨.template, length, openBraces.isSome⟩
  else if c.isDigit || (c = '.' && rest.head?.any Char.isDigit) then
    ⟨.number, numberLength (c :: rest) - 1, false⟩
  else if isIdentifierStart c then
    let tail := rest.takeWhile isIdentifierPart
    ⟨.ofWord (String.ofList (c :: tail)), tail.length, false⟩
  else match Punctuator.at? (c :: rest) with
    | some mark => ⟨.punct mark, mark.chars.length - 1, false⟩
    | none => ⟨.unknown, 0, false⟩

end Lexeme
end Typeahead
