import Delimited.Parser.Basic

/-!
# Parsers of characters

Rejections of these parsers may be recovered from, and stand at the view that
was given.

## Main definitions

* `Parser.char`: one given character.
* `Parser.charOf`: the parser of the one character of a text.
* `Parser.anyChar`: one character, whichever it is.
* `Parser.lineBreak`: a line feed, alone or after a carriage return.
-/

namespace Delimited.Parser

/-- Reads the character `c`. -/
def char (c : Char) : Parser Char := leaf "parse_char" fun v =>
  match v.peek with
  | .ok none => .ok (.reject v .endOfInput)
  | .ok (some d) =>
    if d = c then .ok (.success (v.advance 1) c) else .ok (.reject v (.char c.toString))
  | .error fault => .error fault

/-- The parser of the one character of a text. -/
def charOf (s : String) : Except Fault (Parser Char) :=
  match s.toList with
  | [c] => .ok (char c)
  | _ => .error (.notOneCharacter (Text.quoted s))

/-- Reads one character. -/
def anyChar : Parser Char := leaf "any_char" fun v =>
  match v.peek with
  | .ok none => .ok (.reject v .endOfInput)
  | .ok (some d) => .ok (.success (v.advance 1) d)
  | .error fault => .error fault

/-- Reads a line break. A carriage return alone is none. -/
def lineBreak : Parser String := leaf "line_break" fun v =>
  if v.startsWith ['\n'] then .ok (.success (v.advance 1) "\n")
  else if v.startsWith ['\r', '\n'] then .ok (.success (v.advance 2) "\r\n")
  else .ok (.reject v .lineBreak)

end Delimited.Parser
