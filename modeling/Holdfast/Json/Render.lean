import Holdfast.Json.Document

namespace Holdfast.Json

def escape (c : Char) : List Char :=
  match c with
  | '"' => ['\\', '"']
  | '\\' => ['\\', '\\']
  | '\x08' => ['\\', 'b']
  | '\x0c' => ['\\', 'f']
  | '\n' => ['\\', 'n']
  | '\r' => ['\\', 'r']
  | '\t' => ['\\', 't']
  | _ => if c.toNat < 0x20 then ['\\', 'u'] ++ Text.hexadecimal 4 c.toNat else [c]

def renderString (s : String) : List Char := '"' :: s.toList.flatMap escape ++ ['"']

namespace Value

mutual

/-- The value without blanks. -/
def toChars : Value → List Char
  | null => "null".toList
  | bool true => "true".toList
  | bool false => "false".toList
  | number n => n.toChars
  | string s => renderString (s.getD "")
  | array items _ => '[' :: itemChars items ++ [']']
  | object members _ => '\x7b' :: memberChars members ++ ['\x7d']

def itemChars : List Value → List Char
  | [] => []
  | [v] => v.toChars
  | v :: vs => v.toChars ++ ',' :: itemChars vs

def memberChars : List (Option String × Value) → List Char
  | [] => []
  | [(k, v)] => renderString (k.getD "") ++ ':' :: v.toChars
  | (k, v) :: ms => renderString (k.getD "") ++ ':' :: v.toChars ++ ',' :: memberChars ms

end

def render (v : Value) : String := String.ofList v.toChars

end Value
end Holdfast.Json
