import TreeStream.Double.Layout
import TreeStream.Json.Basic
import TreeStream.Json.Quoted

/-!
# Compact text of a JSON value

No blank stands outside strings, and no control character anywhere, so the text of a value is one
line.
-/

namespace TreeStream
namespace Json

/-- An integer in decimal. -/
def intChars (i : Int) : List Char :=
  (if i < 0 then ['-'] else []) ++ Nat.toDigits 10 i.natAbs

/-- A double that is not finite has no number and is written as null. -/
def numberChars : JsonNumber → List Char
  | .int i => intChars i
  | .float d => if d.isFinite then Double.Layout.row.chars d else ['n', 'u', 'l', 'l']

mutual

/-- The characters of the compact text. -/
def chars : Json → List Char
  | null => ['n', 'u', 'l', 'l']
  | bool true => ['t', 'r', 'u', 'e']
  | bool false => ['f', 'a', 'l', 's', 'e']
  | number n => numberChars n
  | string s => quotedChars s.toList
  | array items => '[' :: itemsChars items
  | object fields => '{' :: fieldsChars fields

/-- The items of an array up to and with its closing bracket. -/
def itemsChars : List Json → List Char
  | [] => [']']
  | [x] => chars x ++ [']']
  | x :: y :: rest => chars x ++ ',' :: itemsChars (y :: rest)

/-- The fields of an object up to and with its closing brace. -/
def fieldsChars : List (String × Json) → List Char
  | [] => ['}']
  | [(k, x)] => quotedChars k.toList ++ ':' :: chars x ++ ['}']
  | (k, x) :: y :: rest =>
    quotedChars k.toList ++ ':' :: chars x ++ ',' :: fieldsChars (y :: rest)

end

/-- The compact text of a value. -/
def text (j : Json) : String := String.ofList (chars j)

end Json
end TreeStream
