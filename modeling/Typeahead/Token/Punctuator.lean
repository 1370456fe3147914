/-
# Punctuators

The punctuation marks and operators of a script, with their spellings. Where
several spellings fit, the longest is meant, so they are tried from the longest
to the shortest.

Key definitions: `Punctuator`, `Punctuator.chars`, `Punctuator.at?`.
-/
namespace Typeahead

/-- A punctuation mark or operator. -/
inductive Punctuator where
  | openParen | closeParen | openBrace | closeBrace | openBracket | closeBracket | dot
  | ellipsis | optionalDot | semicolon | comma | colon | question | atSign | hash | arrow
  | equals | equalsEquals | equalsEqualsEquals | exclamation | exclamationEquals
  | exclamationEqualsEquals | lessThan | lessThanEquals | greaterThan | greaterThanEquals
  | plus | minus | asterisk | asteriskAsterisk | slash | percent | plusPlus | minusMinus
  | lessThanLessThan | greaterThanGreaterThan | greaterThanGreaterThanGreaterThan | ampersand
  | bar | circumflex | tilde | ampersandAmpersand | barBar | questionQuestion | plusAssign
  | minusAssign | asteriskAssign | asteriskAsteriskAssign | slashAssign | percentAssign
  | lessThanLessThanAssign | greaterThanGreaterThanAssign
  | greaterThanGreaterThanGreaterThanAssign | ampersandAssign | barAssign | circumflexAssign
  | ampersandAmpersandAssign | barBarAssign | questionQuestionAssign
  deriving DecidableEq, Repr, Inhabited

namespace Punctuator

/-- The characters of a punctuator. -/
def chars : Punctuator → List Char
  | .openParen => ['(']
  | .closeParen => [')']
  | .openBrace => ['{']
  | .closeBrace => ['}']
  | .openBracket => ['[']
  | .closeBracket => [']']
  | .dot => ['.']
  | .ellipsis => ['.', '.', '.']
  | .optionalDot => ['?', '.']
  | .semicolon => [';']
  | .comma => [',']
  | .colon => [':']
  | .question => ['?']
  | .atSign => ['@']
  | .hash => ['#']
  | .arrow => ['=', '>']
  | .equals => ['=']
  | .equalsEquals => ['=', '=']
  | .equalsEqualsEquals => ['=', '=', '=']
  | .exclamation => ['!']
  | .exclamationEquals => ['!', '=']
  | .exclamationEqualsEquals => ['!', '=', '=']
  | .lessThan => ['<']
  | .lessThanEquals => ['<', '=']
  | .greaterThan => ['>']
  | .greaterThanEquals => ['>', '=']
  | .plus => ['+']
  | .minus => ['-']
  | .asterisk => ['*']
  | .asteriskAsterisk => ['*', '*']
  | .slash => ['/']
  | .percent => ['%']
  | .plusPlus => ['+', '+']
  | .minusMinus => ['-', '-']
  | .lessThanLessThan => ['<', '<']
  | .greaterThanGreaterThan => ['>', '>']
  | .greaterThanGreaterThanGreaterThan => ['>', '>', '>']
  | .ampersand => ['&']
  | .bar => ['|']
  | .circumflex => ['^']
  | .tilde => ['~']
  | .ampersandAmpersand => ['&', '&']
  | .barBar => ['|', '|']
  | .questionQuestion => ['?', '?']
  | .plusAssign => ['+', '=']
  | .minusAssign => ['-', '=']
  | .asteriskAssign => ['*', '=']
  | .asteriskAsteriskAssign => ['*', '*', '=']
  | .slashAssign => ['/', '=']
  | .percentAssign => ['%', '=']
  | .lessThanLessThanAssign => ['<', '<', '=']
  | .greaterThanGreaterThanAssign => ['>', '>', '=']
  | .greaterThanGreaterThanGreaterThanAssign => ['>', '>', '>', '=']
  | .ampersandAssign => ['&', '=']
  | .barAssign => ['|', '=']
  | .circumflexAssign => ['^', '=']
  | .ampersandAmpersandAssign => ['&', '&', '=']
  | .barBarAssign => ['|', '|', '=']
  | .questionQuestionAssign => ['?', '?', '=']

/-- The spelling of a punctuator. -/
def text (p : Punctuator) : String := String.ofList p.chars

/-- The name under which a punctuator is reported. -/
def name : Punctuator → String
  | .openParen => "OpenParenToken"
  | .closeParen => "CloseParenToken"
  | .openBrace => "OpenBraceToken"
  | .closeBrace => "CloseBraceToken"
  | .openBracket => "OpenBracketToken"
  | .closeBracket => "CloseBracketToken"
  | .dot => "DotToken"
  | .ellipsis => "DotDotDotToken"
  | .optionalDot => "QuestionDotToken"
  | .semicolon => "SemicolonToken"
  | .comma => "CommaToken"
  | .colon => "ColonToken"
  | .question => "QuestionToken"
  | .atSign => "AtToken"
  | .hash => "HashToken"
  | .arrow => "EqualsGreaterThanToken"
  | .equals => "EqualsToken"
  | .equalsEquals => "EqualsEqualsToken"
  | .equalsEqualsEquals => "EqualsEqualsEqualsToken"
  | .exclamation => "ExclamationToken"
  | .exclamationEquals => "ExclamationEqualsToken"
  | .exclamationEqualsEquals => "ExclamationEqualsEqualsToken"
  | .lessThan => "LessThanToken"
  | .lessThanEquals => "LessThanEqualsToken"
  | .greaterThan => "GreaterThanToken"
  | .greaterThanEquals => "GreaterThanEqualsToken"
  | .plus => "PlusToken"
  | .minus => "MinusToken"
  | .asterisk => "AsteriskToken"
  | .asteriskAsterisk => "AsteriskAsteriskToken"
  | .slash => "SlashToken"
  | .percent => "PercentToken"
  | .plusPlus => "PlusPlusToken"
  | .minusMinus => "MinusMinusToken"
  | .lessThanLessThan => "LessThanLessThanToken"
  | .greaterThanGreaterThan => "GreaterThanGreaterThanToken"
  | .greaterThanGreaterThanGreaterThan => "GreaterThanGreaterThanGreaterThanToken"
  | .ampersand => "AmpersandToken"
  | .bar => "BarToken"
  | .circumflex => "CaretToken"
  | .tilde => "TildeToken"
  | .ampersandAmpersand => "AmpersandAmpersandToken"
  | .barBar => "BarBarToken"
  | .questionQuestion => "QuestionQuestionToken"
  | .plusAssign => "PlusEqualsToken"
  | .minusAssign => "MinusEqualsToken"
  | .asteriskAssign => "AsteriskEqualsToken"
  | .asteriskAsteriskAssign => "AsteriskAsteriskEqualsToken"
  | .slashAssign => "SlashEqualsToken"
  | .percentAssign => "PercentEqualsToken"
  | .lessThanLessThanAssign => "LessThanLessThanEqualsToken"
  | .greaterThanGreaterThanAssign => "GreaterThanGreaterThanEqualsToken"
  | .greaterThanGreaterThanGreaterThanAssign => "GreaterThanGreaterThanGreaterThanEqualsToken"
  | .ampersandAssign => "AmpersandEqualsToken"
  | .barAssign => "BarEqualsToken"
  | .circumflexAssign => "CaretEqualsToken"
  | .ampersandAmpersandAssign => "AmpersandAmpersandEqualsToken"
  | .barBarAssign => "BarBarEqualsToken"
  | .questionQuestionAssign => "QuestionQuestionEqualsToken"

/-- Every punctuator, longer spellings first. -/
def longestFirst : List Punctuator := [
  .greaterThanGreaterThanGreaterThanAssign, .ellipsis, .equalsEqualsEquals,
  .exclamationEqualsEquals, .greaterThanGreaterThanGreaterThan, .asteriskAsteriskAssign,
  .lessThanLessThanAssign, .greaterThanGreaterThanAssign, .ampersandAmpersandAssign,
  .barBarAssign, .questionQuestionAssign, .optionalDot, .arrow, .equalsEquals,
  .exclamationEquals, .lessThanEquals, .greaterThanEquals, .asteriskAsterisk, .plusPlus,
  .minusMinus, .lessThanLessThan, .greaterThanGreaterThan, .ampersandAmpersand, .barBar,
  .questionQuestion, .plusAssign, .minusAssign, .asteriskAssign, .slashAssign, .percentAssign,
  .ampersandAssign, .barAssign, .circumflexAssign, .openParen, .closeParen, .openBrace,
  .closeBrace, .openBracket, .closeBracket, .dot, .semicolon, .comma, .colon, .question,
  .atSign, .hash, .equals, .exclamation, .lessThan, .greaterThan, .plus, .minus, .asterisk,
  .slash, .percent, .ampersand, .bar, .circumflex, .tilde]

/-- The punctuator at the start of a text. `?.` before a digit is a `?` and the
number that follows it. -/
def at? (text : List Char) : Option Punctuator :=
  match longestFirst.find? (·.chars.isPrefixOf text) with
  | some .optionalDot => if (text.drop 2).head?.any Char.isDigit then some .question else some .optionalDot
  | found => found

/-- An operator that stores a value: `=` and the compound assignments. -/
def isAssignment : Punctuator → Bool
  | .equals | .plusAssign | .minusAssign | .asteriskAssign | .asteriskAsteriskAssign
  | .slashAssign | .percentAssign | .lessThanLessThanAssign | .greaterThanGreaterThanAssign
  | .greaterThanGreaterThanGreaterThanAssign | .ampersandAssign | .barAssign
  | .circumflexAssign | .ampersandAmpersandAssign | .barBarAssign | .questionQuestionAssign => true
  | _ => false

/-- A mark that structures the text, as against an operator. -/
def isDelimiter : Punctuator → Bool
  | .openParen | .closeParen | .openBrace | .closeBrace | .openBracket | .closeBracket
  | .semicolon | .comma | .colon | .dot | .atSign | .hash => true
  | _ => false

end Punctuator
end Typeahead
