import PlZero.Located

/-!
# Tokens

The words of a PL/0 program: names, numbers, quoted texts, keywords and punctuation marks,
and the end of the input as a token of its own. A token knows its class (`Token.className`),
the spelling that produces it (`Token.lexeme`) and how a message speaks of it
(`Token.description`).

Keywords and marks are finite tables, each read in both directions: `spelling` goes from the
member to its text, and `ofSpelling?` back.
-/

namespace PlZero

/-! ### Keywords -/

/-- The reserved words of the language; they are case-sensitive. -/
inductive Keyword
  | const | var | size | procedure | call | begin_ | end_ | if_ | then_ | while_ | do_ | odd
  | writeInt | writeChar | writeStr | readInt | readChar | into
  deriving DecidableEq, Repr

namespace Keyword

/-- Every keyword once. -/
def all : List Keyword :=
  [const, var, size, procedure, call, begin_, end_, if_, then_, while_, do_, odd,
    writeInt, writeChar, writeStr, readInt, readChar, into]

/-- The word as it stands in a program. -/
def spelling : Keyword → String
  | const => "const"
  | var => "var"
  | size => "size"
  | procedure => "procedure"
  | call => "call"
  | begin_ => "begin"
  | end_ => "end"
  | if_ => "if"
  | then_ => "then"
  | while_ => "while"
  | do_ => "do"
  | odd => "odd"
  | writeInt => "writeInt"
  | writeChar => "writeChar"
  | writeStr => "writeStr"
  | readInt => "readInt"
  | readChar => "readChar"
  | into => "into"

/-- The keyword that is spelled `word`, if there is one. -/
def ofSpelling? (word : String) : Option Keyword :=
  all.find? fun k => k.spelling = word

/-- The class of a keyword is its own spelling in capitals. -/
def className (k : Keyword) : String :=
  String.ofList (k.spelling.toList.map Char.toUpper)

theorem mem_all (k : Keyword) : k ∈ all := by
  cases k <;> decide

theorem ofSpelling?_spelling (k : Keyword) : ofSpelling? k.spelling = some k := by
  cases k <;> decide

theorem spelling_of_ofSpelling? {word : String} {k : Keyword} (h : ofSpelling? word = some k) :
    k.spelling = word := by
  simpa using List.find?_some h

end Keyword

/-! ### Punctuation marks -/

/-- The punctuation marks of the language. -/
inductive Mark
  | becomes | equals | differs | below | above | comma | dot | semicolon
  | plus | minus | star | slash | leftParen | rightParen | leftBracket | rightBracket
  deriving DecidableEq, Repr

namespace Mark

/-- Every mark once. -/
def all : List Mark :=
  [becomes, equals, differs, below, above, comma, dot, semicolon,
    plus, minus, star, slash, leftParen, rightParen, leftBracket, rightBracket]

/-- The mark as it stands in a program. -/
def spelling : Mark → String
  | becomes => ":="
  | equals => "="
  | differs => "#"
  | below => "<"
  | above => ">"
  | comma => ","
  | dot => "."
  | semicolon => ";"
  | plus => "+"
  | minus => "-"
  | star => "*"
  | slash => "/"
  | leftParen => "("
  | rightParen => ")"
  | leftBracket => "["
  | rightBracket => "]"

/-- The class of a mark, as listings name it. -/
def className : Mark → String
  | becomes => "ASSIGN"
  | equals => "EQUAL"
  | differs => "HASH"
  | below => "LESSTHAN"
  | above => "GREATERTHAN"
  | comma => "COMMA"
  | dot => "DOT"
  | semicolon => "SEMICOLON"
  | plus => "PLUS"
  | minus => "MINUS"
  | star => "MULTIPLY"
  | slash => "DIVIDE"
  | leftParen => "LPAREN"
  | rightParen => "RPAREN"
  | leftBracket => "LBRACK"
  | rightBracket => "RBRACK"

/-- The mark that is spelled `text`, if there is one. -/
def ofSpelling? (text : String) : Option Mark :=
  all.find? fun m => m.spelling = text

/-- The mark that the single character `c` makes; `:=` has two characters and is not among
these. -/
def ofChar? : Char → Option Mark
  | '=' => some equals
  | '#' => some differs
  | '<' => some below
  | '>' => some above
  | ',' => some comma
  | '.' => some dot
  | ';' => some semicolon
  | '+' => some plus
  | '-' => some minus
  | '*' => some star
  | '/' => some slash
  | '(' => some leftParen
  | ')' => some rightParen
  | '[' => some leftBracket
  | ']' => some rightBracket
  | _ => none

theorem mem_all (m : Mark) : m ∈ all := by
  cases m <;> decide

theorem ofSpelling?_spelling (m : Mark) : ofSpelling? m.spelling = some m := by
  cases m <;> decide

theorem toList_spelling_of_ofChar? {c : Char} {m : Mark} (h : ofChar? c = some m) :
    m.spelling.toList = [c] := by
  unfold ofChar? at h
  split at h <;> cases h <;> decide

end Mark

/-! ### Tokens -/

/-- The largest number a program may write, the greatest value of a signed 64-bit word. -/
def maxNumber : Nat := 0x7fffffffffffffff

/-- A token of a program. A number keeps its digits as written, without the separators `_`;
a quoted text keeps its content, without the quotes. -/
inductive Token
  | name (text : String)
  | number (value : Int) (digits : String)
  | text (content : String)
  | keyword (word : Keyword)
  | mark (sign : Mark)
  | endOfInput
  deriving DecidableEq, Repr

namespace Token

/-- The class of the token, as listings name it. -/
def className : Token → String
  | name _ => "IDENT"
  | number _ _ => "NUMBER"
  | text _ => "STRING"
  | keyword k => k.className
  | mark m => m.className
  | endOfInput => "EOF"

/-- The characters between the quotes of a quoted text: a quote in it is written twice. -/
def doubleQuotes : List Char → List Char
  | [] => []
  | c :: cs => if c = '\'' then '\'' :: '\'' :: doubleQuotes cs else c :: doubleQuotes cs

/-- The program text that produces the token. -/
def lexeme : Token → String
  | name x => x
  | number _ digits => digits
  | text content => String.ofList ('\'' :: doubleQuotes content.toList ++ ['\''])
  | keyword k => k.spelling
  | mark m => m.spelling
  | endOfInput => ""

/-- The token as a message speaks of it. -/
def description (t : Token) : String :=
  match t with
  | name x => "identifier `" ++ x ++ "`"
  | keyword k => "keyword `" ++ k.spelling ++ "`"
  | number _ digits => "literal `" ++ digits ++ "`"
  | text _ => "string literal " ++ t.lexeme
  | mark m => "`" ++ m.spelling ++ "`"
  | endOfInput => "end of file"

end Token

end PlZero
