import TreeStream.Text.Printable

/-!
# Inspection texts

The text that shows a value to a programmer, on one line: strings in quotes with everything
invisible escaped, options by name, structures with their field names.
-/

namespace TreeStream
namespace Text

/-- A code point in hexadecimal, in braces. -/
def codePointEscape (c : Char) : List Char :=
  ['\\', 'u', '\x7b'] ++ Nat.toDigits 16 c.toNat ++ ['\x7d']

/-- One character of an inspected string. -/
def inspectedChar (c : Char) : List Char :=
  if c = '\x00' then ['\\', '0']
  else if c = '\t' then ['\\', 't']
  else if c = '\r' then ['\\', 'r']
  else if c = '\n' then ['\\', 'n']
  else if c = '\\' ∨ c = '"' then ['\\', c]
  else if isHidden c || isUnprintable c then codePointEscape c
  else [c]

/-- A string in quotes. -/
def inspect (s : String) : String :=
  String.ofList ('"' :: s.toList.flatMap inspectedChar ++ ['"'])

/-- A name with one part in parentheses. -/
def inspectTuple (name part : String) : String := name ++ "(" ++ part ++ ")"

def inspectOption : Option String → String
  | none => "None"
  | some s => inspectTuple "Some" (inspect s)

/-- A name with named parts in braces; the parts are inspected already. -/
def inspectFields (name : String) (parts : List (String × String)) : String :=
  name ++ " \x7b " ++ String.intercalate ", " (parts.map fun p => p.1 ++ ": " ++ p.2) ++ " \x7d"

/-- As `inspectFields`, with a mark that some parts are not shown. -/
def inspectSomeFields (name : String) (parts : List (String × String)) : String :=
  name ++ " \x7b " ++ String.join (parts.map fun p => p.1 ++ ": " ++ p.2 ++ ", ") ++ ".. \x7d"

def inspectList (parts : List String) : String := "[" ++ String.intercalate ", " parts ++ "]"

end Text
end TreeStream
