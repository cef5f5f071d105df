import Holdfast.Json.Number

namespace Holdfast.Json

inductive Token
  | openArray | closeArray | openObject | closeObject | comma | colon
  | null
  | bool (b : Bool)
  | number (n : Number)
  /-- The text is missing when an escape in it stands for no character. -/
  | string (s : Option String)
  /-- From here on the text has no tokens. -/
  | unreadable
deriving DecidableEq, Repr

/-- A character of a string as it stands, or a code unit written with four hexadecimal digits. -/
inductive Piece
  | char (c : Char)
  | unit (n : Nat)
deriving DecidableEq, Repr

def isHighSurrogate (n : Nat) : Bool := 0xD800 ≤ n && n < 0xDC00

def isLowSurrogate (n : Nat) : Bool := 0xDC00 ≤ n && n < 0xE000

/-- A high code unit counts only together with the low one after it. -/
def assemble? : List Piece → Option (List Char)
  | [] => some []
  | .char c :: ps => (assemble? ps).map (c :: ·)
  | .unit n :: ps =>
    if isHighSurrogate n then
      match ps with
      | .unit m :: qs =>
        if isLowSurrogate m then
          (assemble? qs).map (Char.ofNat (0x10000 + (n - 0xD800) * 0x400 + (m - 0xDC00)) :: ·)
        else none
      | _ => none
    else if isLowSurrogate n then none
    else (assemble? ps).map (Char.ofNat n :: ·)

/-- What the lexer is in the middle of; what it has read of it is in reverse. -/
inductive Mode
  | between
  | string (read : List Piece)
  | escape (read : List Piece)
  | hex (read : List Piece) (missing value : Nat)
  | number (read : List Char)
  | word (read : List Char)
  | stuck
deriving DecidableEq, Repr

/-- The tokens so far, in reverse, and what comes next. -/
structure Lexer where
  tokens : List Token := []
  mode : Mode := .between
deriving Repr

namespace Lexer

def emit (l : Lexer) (t : Token) : Lexer := { tokens := t :: l.tokens }

def fail (l : Lexer) : Lexer := ⟨.unreadable :: l.tokens, .stuck⟩

def isSpace (c : Char) : Bool := c = ' ' || c = '\n' || c = '\t' || c = '\r'

def isNumeric (c : Char) : Bool :=
  Number.isDigit c || c = '-' || c = '+' || c = '.' || c = 'e' || c = 'E'

def isLetter (c : Char) : Bool := 'a' ≤ c && c ≤ 'z'

def hexValue? (c : Char) : Option Nat :=
  if '0' ≤ c ∧ c ≤ '9' then some (c.toNat - '0'.toNat)
  else if 'a' ≤ c ∧ c ≤ 'f' then some (c.toNat - 'a'.toNat + 10)
  else if 'A' ≤ c ∧ c ≤ 'F' then some (c.toNat - 'A'.toNat + 10)
  else none

def escaped? : Char → Option Char
  | '"' => some '"'
  | '\\' => some '\\'
  | '/' => some '/'
  | 'b' => some '\x08'
  | 'f' => some '\x0c'
  | 'n' => some '\n'
  | 'r' => some '\r'
  | 't' => some '\t'
  | _ => none

/-- The first character of a token. -/
def start (l : Lexer) (c : Char) : Lexer :=
  match c with
  | '[' => l.emit .openArray
  | ']' => l.emit .closeArray
  | '\x7b' => l.emit .openObject
  | '\x7d' => l.emit .closeObject
  | ',' => l.emit .comma
  | ':' => l.emit .colon
  | '"' => { l with mode := .string [] }
  | _ =>
    if isSpace c then { l with mode := .between }
    else if Number.isDigit c || c = '-' then { l with mode := .number [c] }
    else if isLetter c then { l with mode := .word [c] }
    else l.fail

def endNumber (l : Lexer) (read : List Char) : Lexer :=
  match Number.ofChars? read.reverse with
  | some n => l.emit (.number n)
  | none => l.fail

def endWord (l : Lexer) (read : List Char) : Lexer :=
  match String.ofList read.reverse with
  | "null" => l.emit .null
  | "true" => l.emit (.bool true)
  | "false" => l.emit (.bool false)
  | _ => l.fail

/-- Starts the next token unless the last one could not be read. -/
def restart (l : Lexer) (c : Char) : Lexer := if l.mode = .stuck then l else l.start c

def step (l : Lexer) (c : Char) : Lexer :=
  match l.mode with
  | .between => l.start c
  | .string read =>
    if c = '"' then l.emit (.string ((assemble? read.reverse).map String.ofList))
    else if c = '\\' then { l with mode := .escape read }
    else if c.toNat < 0x20 then l.fail
    else { l with mode := .string (.char c :: read) }
  | .escape read =>
    if c = 'u' then { l with mode := .hex read 4 0 }
    else match escaped? c with
      | some e => { l with mode := .string (.char e :: read) }
      | none => l.fail
  | .hex read missing value =>
    match hexValue? c with
    | none => l.fail
    | some d =>
      if missing ≤ 1 then { l with mode := .string (.unit (value * 16 + d) :: read) }
      else { l with mode := .hex read (missing - 1) (value * 16 + d) }
  | .number read =>
    if isNumeric c then { l with mode := .number (c :: read) } else (l.endNumber read).restart c
  | .word read =>
    if isLetter c then { l with mode := .word (c :: read) } else (l.endWord read).restart c
  | .stuck => l

/-- The end of the text ends a number or a word, and nothing else that has begun. -/
def finish (l : Lexer) : List Token :=
  let l := match l.mode with
    | .between | .stuck => l
    | .number read => l.endNumber read
    | .word read => l.endWord read
    | _ => l.fail
  l.tokens.reverse

end Lexer

def tokens (s : String) : List Token := (s.toList.foldl Lexer.step {}).finish

end Holdfast.Json
