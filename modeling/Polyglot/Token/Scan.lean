import Polyglot.Diagnostic

/-!
# Cutting a text into tokens

A text is read from the left: line feeds and gaps are passed over, two hyphens start a comment that
ends with its line, and otherwise the longest lexeme at the place is taken. No lexeme runs over the
end of a line. The scanner knows ASCII letters and digits only.
-/

namespace Polyglot

/-! ## Character classes -/

/-- The characters that separate lexemes inside a line. -/
def isGap (c : Char) : Bool :=
  c == ' ' || c == '\t' || c == '\r'

def isNameStart (c : Char) : Bool :=
  c.isAlpha || c == '_'

def isNamePart (c : Char) : Bool :=
  c.isAlphanum || c == '_'

/-- The characters that may follow a backslash in a string literal. -/
def isEscape (c : Char) : Bool :=
  c == 'n' || c == 'r' || c == 't' || c == '\\' || c == '"' || c == '\x27' || c == '0'

/-! ## One lexeme -/

def Keyword.ofName? : String → Option Keyword
  | "if" => some .ifWord
  | "then" => some .thenWord
  | "else" => some .elseWord
  | "type" => some .typeWord
  | _ => none

/-- The lexeme of a word: a keyword, or else a name. -/
def Lexeme.ofWord (word : String) : Lexeme :=
  match Keyword.ofName? word with
  | some reserved => .keyword reserved
  | none => .ident word

def Symbol.ofPair? : Char → Char → Option Symbol
  | '-', '>' => some .arrow
  | '&', '&' => some .andAnd
  | '|', '|' => some .barBar
  | '<', '=' => some .lessEq
  | '>', '=' => some .greaterEq
  | '=', '=' => some .equalEqual
  | '!', '=' => some .notEqual
  | _, _ => none

def Symbol.ofChar? : Char → Option Symbol
  | '+' => some .plus
  | '-' => some .minus
  | '*' => some .star
  | '/' => some .slash
  | '<' => some .less
  | '>' => some .greater
  | '=' => some .equals
  | '\\' => some .backslash
  | '|' => some .bar
  | '(' => some .openParen
  | ')' => some .closeParen
  | '[' => some .openBracket
  | ']' => some .closeBracket
  | '\x7b' => some .openBrace
  | '\x7d' => some .closeBrace
  | ',' => some .comma
  | ':' => some .colon
  | _ => none

/-- The symbol at the start of a text's rest. Two characters that make a symbol win over one. -/
def Symbol.read? : List Char → Option Symbol
  | [] => none
  | [c] => ofChar? c
  | c :: d :: _ => (ofPair? c d).or (ofChar? c)

/-- The digits of a number: a fraction belongs to it only if a digit follows the point. -/
def numberChars (cs : List Char) : List Char :=
  let whole := cs.takeWhile Char.isDigit
  match cs.dropWhile Char.isDigit with
  | '.' :: d :: rest =>
      if d.isDigit then whole ++ '.' :: d :: rest.takeWhile Char.isDigit else whole
  | _ => whole

/-- The body of a string literal, up to the closing quote, which has to stand on the same line. A
failure comes with its distance from the opening quote; `offset` is the distance of the first
character. -/
def stringChars : Nat → List Char → Except (Problem × Nat) (List Char)
  | _, [] => .error (.unterminatedString, 0)
  | _, '"' :: _ => .ok []
  | _, '\n' :: _ => .error (.unterminatedString, 0)
  | offset, ['\\'] => .error (.invalidEscape, offset)
  | offset, '\\' :: c :: cs =>
      if isEscape c then do
        let body ← stringChars (offset + 2) cs
        return '\\' :: c :: body
      else .error (.invalidEscape, offset)
  | offset, c :: cs => do
      let body ← stringChars (offset + 1) cs
      return c :: body

/-- The longest lexeme that starts with `c` and goes on in `cs`. -/
def readLexeme (c : Char) (cs : List Char) : Except (Problem × Nat) Lexeme :=
  if c.isDigit then
    .ok (.number (String.ofList (numberChars (c :: cs))))
  else if c = '"' then do
    let body ← stringChars 1 cs
    return .string (String.ofList body)
  else if isNameStart c then
    .ok (Lexeme.ofWord (String.ofList (c :: cs.takeWhile isNamePart)))
  else
    match Symbol.read? (c :: cs) with
    | some sign => .ok (.symbol sign)
    | none => .error (.unexpectedChar c, 0)

/-! ## Texts -/

/-- A token before what is scanned behind it. -/
def Scan.cons (token : Token) (scan : Scan) : Scan :=
  ⟨token :: scan.tokens, scan.finish⟩

/-- The tokens of a text's rest, the first character of which stands in the column `col` of the line
`line`. A comment takes no room: what ends its line stands in the column where it starts. -/
def scanFrom (line : Int) (col : Nat) : List Char → Except Diagnostic Scan
  | [] => .ok ⟨[], ⟨line, col⟩⟩
  | c :: cs =>
      if c = '\n' then
        scanFrom (line + 1) 1 cs
      else if isGap c then
        scanFrom line (col + 1) cs
      else if c = '-' ∧ cs.head? = some '-' then
        scanFrom line col (cs.dropWhile (· != '\n'))
      else
        match readLexeme c cs with
        | .error (problem, offset) => .error ⟨.lexical, problem, ⟨line, col + offset⟩⟩
        | .ok lexeme =>
            let width := lexeme.spelling.length
            (scanFrom line (col + width) (cs.drop (width - 1))).map (Scan.cons ⟨lexeme, ⟨line, col⟩⟩)
termination_by cs => cs.length
decreasing_by
  · exact Nat.lt_succ_self _
  · exact Nat.lt_succ_self _
  · exact Nat.lt_succ_of_le (List.dropWhile_sublist _).length_le
  · exact Nat.lt_succ_of_le (List.drop_sublist _ _).length_le

/-- Cuts a text into tokens; `line` is the number of its first line. -/
def scan (text : String) (line : Int) : Except Diagnostic Scan :=
  scanFrom line 1 text.toList

end Polyglot
