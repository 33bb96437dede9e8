import TreeStream.Double.Reading
import TreeStream.Text.Hex
import TreeStream.Toml.Basic

/-!
# Reading configuration documents

A document is read line by line into one tree of tables; a fault anywhere means no document. Each
reader takes the rest of the text and gives what it read with what is left. Readers that call
themselves carry a bound, which the length of the text supplies.
-/

namespace TreeStream
namespace Toml

/-- What a reader gives: a value and the rest of the text, or nothing. -/
abbrev Reading (α : Type) := Option (α × List Char)

/-! ## Blanks, comments and line ends -/

def isBlank (c : Char) : Bool := c == ' ' || c == '\t'

def skipBlanks (cs : List Char) : List Char := cs.dropWhile isBlank

/-- Control characters other than the tab stand nowhere but in line ends. -/
def isText (c : Char) : Bool := c == '\t' || (0x20 ≤ c.toNat && c.toNat != 0x7f)

def skipComment (cs : List Char) : List Char :=
  match cs with
  | '#' :: rest => rest.dropWhile isText
  | _ => cs

/-- A line end, if the text begins with one. -/
def lineEnd? (cs : List Char) : Option (List Char) :=
  match cs with
  | '\n' :: rest => some rest
  | '\r' :: '\n' :: rest => some rest
  | _ => none

/-- Blanks, a comment, and a line end or the end of the text. -/
def endOfLine? (cs : List Char) : Option (List Char) :=
  match skipComment (skipBlanks cs) with
  | [] => some []
  | cs => lineEnd? cs

/-- Blanks, comments and line ends. -/
def skipLines : Nat → List Char → List Char
  | 0, cs => cs
  | n + 1, cs =>
    let cs := skipComment (skipBlanks cs)
    match lineEnd? cs with
    | some rest => skipLines n rest
    | none => cs

/-! ## Strings -/

/-- A code point in exactly `n` hexadecimal digits. -/
def codePoint? : Nat → Nat → List Char → Reading Char
  | 0, value, cs => if Nat.isValidChar value then some (Char.ofNat value, cs) else none
  | n + 1, value, c :: cs => (Text.hexDigit? c).bind fun d => codePoint? n (16 * value + d) cs
  | _ + 1, _, [] => none

/-- What follows a backslash, line continuations apart. -/
def escaped? : List Char → Reading Char
  | 'b' :: cs => some ('\x08', cs)
  | 't' :: cs => some ('\t', cs)
  | 'n' :: cs => some ('\n', cs)
  | 'f' :: cs => some ('\x0c', cs)
  | 'r' :: cs => some ('\r', cs)
  | 'e' :: cs => some ('\x1b', cs)
  | '"' :: cs => some ('"', cs)
  | '\\' :: cs => some ('\\', cs)
  | 'x' :: cs => codePoint? 2 0 cs
  | 'u' :: cs => codePoint? 4 0 cs
  | 'U' :: cs => codePoint? 8 0 cs
  | _ => none

/-- A string in double quotes on one line, behind its opening quote. -/
def basicString : Nat → List Char → List Char → Reading String
  | 0, _, _ => none
  | n + 1, done, cs =>
    match cs with
    | [] => none
    | '"' :: rest => some (String.ofList done.reverse, rest)
    | '\\' :: rest => (escaped? rest).bind fun r => basicString n (r.1 :: done) r.2
    | c :: rest => if isText c then basicString n (c :: done) rest else none

/-- A string in single quotes on one line, behind its opening quote. -/
def literalString (cs : List Char) : Reading String :=
  let body := cs.takeWhile fun c => c != '\'' && isText c
  match cs.dropWhile (fun c => c != '\'' && isText c) with
  | '\'' :: rest => some (String.ofList body, rest)
  | _ => none

/-- The end of a string of several lines: three quotes, with up to two more that belong to the
string. -/
def closingQuotes? (quote : Char) (cs : List Char) : Reading (List Char) :=
  let count := (cs.takeWhile (· == quote)).length
  if count < 3 then none
  else
    let extra := min (count - 3) 2
    some (List.replicate extra quote, cs.drop (extra + 3))

/-- Blanks and line ends; a carriage return alone is no line end and stays. -/
def skipEmptyLines (cs : List Char) : List Char :=
  match cs with
  | '\r' :: '\n' :: rest => skipEmptyLines rest
  | c :: rest => if isBlank c || c == '\n' then skipEmptyLines rest else cs
  | [] => []

/-- A backslash at the end of a line takes the line end and all blanks and line ends behind it
away. -/
def continuation? (cs : List Char) : Option (List Char) :=
  (lineEnd? (skipBlanks cs)).map skipEmptyLines

/-- A string of several lines in double quotes, behind its opening quotes. -/
def multilineBasic : Nat → List Char → List Char → Reading String
  | 0, _, _ => none
  | n + 1, done, cs =>
    match closingQuotes? '"' cs with
    | some (extra, rest) => some (String.ofList (done.reverse ++ extra), rest)
    | none =>
      match cs with
      | [] => none
      | '\\' :: rest =>
        match continuation? rest with
        | some rest => multilineBasic n done rest
        | none => (escaped? rest).bind fun r => multilineBasic n (r.1 :: done) r.2
      | c :: rest =>
        if isText c then multilineBasic n (c :: done) rest
        else (lineEnd? cs).bind fun rest => multilineBasic n ('\n' :: done) rest

/-- A string of several lines in single quotes, behind its opening quotes. -/
def multilineLiteral : Nat → List Char → List Char → Reading String
  | 0, _, _ => none
  | n + 1, done, cs =>
    match closingQuotes? '\'' cs with
    | some (extra, rest) => some (String.ofList (done.reverse ++ extra), rest)
    | none =>
      match cs with
      | [] => none
      | c :: rest =>
        if isText c then multilineLiteral n (c :: done) rest
        else (lineEnd? cs).bind fun rest => multilineLiteral n ('\n' :: done) rest

/-- A line end right behind the opening quotes does not belong to the string. -/
def skipFirstLineEnd (cs : List Char) : List Char := (lineEnd? cs).getD cs

/-- A string of any of the four kinds. -/
def string? (n : Nat) (cs : List Char) : Reading String :=
  match cs with
  | '"' :: '"' :: '"' :: rest => multilineBasic n [] (skipFirstLineEnd rest)
  | '\'' :: '\'' :: '\'' :: rest => multilineLiteral n [] (skipFirstLineEnd rest)
  | '"' :: rest => basicString n [] rest
  | '\'' :: rest => literalString rest
  | _ => none

/-! ## Keys -/

def isBareKey (c : Char) : Bool := c.isAlphanum || c == '_' || c == '-'

def simpleKey? (n : Nat) (cs : List Char) : Reading String :=
  match cs with
  | '"' :: rest => basicString n [] rest
  | '\'' :: rest => literalString rest
  | _ =>
    let key := cs.takeWhile isBareKey
    if key.isEmpty then none else some (String.ofList key, cs.dropWhile isBareKey)

/-- Keys with points between them; blanks may stand around the points. -/
def dottedKey? : Nat → List Char → Reading (List String)
  | 0, _ => none
  | n + 1, cs =>
    (simpleKey? n (skipBlanks cs)).bind fun k =>
      match skipBlanks k.2 with
      | '.' :: rest => (dottedKey? n rest).map fun ks => (k.1 :: ks.1, ks.2)
      | rest => some ([k.1], rest)

/-- Longest path that one key or header may name. -/
def pathLimit : Nat := 80

/-- A dotted key that is not too long. -/
def keyPath? (n : Nat) (cs : List Char) : Reading (List String) :=
  (dottedKey? n cs).filter fun k => k.1.length ≤ pathLimit

/-! ## Numbers, dates and times -/

/-- Digits of a base with single underscores between them. -/
def digitGroups? (isDigit : Char → Bool) : List Char → Option (List Char)
  | [] => none
  | [c] => if isDigit c then some [c] else none
  | c :: '_' :: rest =>
    if isDigit c then (digitGroups? isDigit rest).map fun ds => c :: ds else none
  | c :: d :: rest =>
    if isDigit c then (digitGroups? isDigit (d :: rest)).map fun ds => c :: ds else none

def digitsIn (base : Nat) (cs : List Char) : Nat :=
  cs.foldl (fun n c => base * n + (Text.hexDigit? c).getD 0) 0

def prefixed? (base : Nat) (isDigit : Char → Bool) (cs : List Char) : Option Value :=
  (digitGroups? isDigit cs).map fun ds => .integer (digitsIn base ds)

def isHexDigit (c : Char) : Bool := (Text.hexDigit? c).isSome

/-- Decimal digits without a needless zero in front. -/
def decimalDigits? (cs : List Char) : Option (List Char) :=
  (digitGroups? Char.isDigit cs).bind fun ds =>
    if ds.head? == some '0' && 1 < ds.length then none else some ds

def isExponentMark (c : Char) : Bool := c == 'e' || c == 'E'

/-- The exponent of a float, its mark taken off. -/
def exponentChars? (cs : List Char) : Option (List Char) :=
  match cs with
  | '+' :: ds => digitGroups? Char.isDigit ds
  | '-' :: ds => (digitGroups? Char.isDigit ds).map fun ds => '-' :: ds
  | ds => digitGroups? Char.isDigit ds

/-- A float needs a fraction or an exponent; a double has to hold it. -/
def float? (negative : Bool) (cs : List Char) : Option Value :=
  let mantissa := cs.takeWhile fun c => !isExponentMark c
  let exponent? := match cs.dropWhile (fun c => !isExponentMark c) with
    | [] => some []
    | _ :: e => (exponentChars? e).map fun ds => 'e' :: ds
  let whole := mantissa.takeWhile (· != '.')
  let fraction? := match mantissa.dropWhile (· != '.') with
    | [] => some []
    | _ :: f => (digitGroups? Char.isDigit f).map fun ds => '.' :: ds
  (decimalDigits? whole).bind fun w =>
    fraction?.bind fun f =>
      exponent?.bind fun e =>
        if f.isEmpty && e.isEmpty then none
        else (Double.ofDecimalChars? negative (w ++ f ++ e)).map fun d => .float d.isFinite

def twoDigits? : List Char → Reading Nat
  | a :: b :: rest =>
    if a.isDigit && b.isDigit then some (Double.digitsValue [a, b], rest) else none
  | _ => none

def expect? (c : Char) : List Char → Option (List Char)
  | d :: rest => if c = d then some rest else none
  | [] => none

def daysIn (year month : Nat) : Nat :=
  if month = 2 then
    if (year % 4 = 0 ∧ year % 100 ≠ 0) ∨ year % 400 = 0 then 29 else 28
  else if month = 4 ∨ month = 6 ∨ month = 9 ∨ month = 11 then 30
  else 31

/-- A date; the answer is what follows it. -/
def date? (cs : List Char) : Option (List Char) :=
  let year := cs.take 4
  if year.length = 4 && year.all Char.isDigit then do
    let rest ← expect? '-' (cs.drop 4)
    let (month, rest) ← twoDigits? rest
    let rest ← expect? '-' rest
    let (day, rest) ← twoDigits? rest
    if 1 ≤ month ∧ month ≤ 12 ∧ 1 ≤ day ∧ day ≤ daysIn (Double.digitsValue year) month then
      some rest
    else none
  else none

/-- Seconds with an optional fraction. -/
def seconds? (cs : List Char) : Option (List Char) := do
  let (second, rest) ← twoDigits? cs
  if 60 < second then none
  else
    match rest with
    | '.' :: fraction =>
      if (fraction.head?.map Char.isDigit).getD false then some (fraction.dropWhile Char.isDigit)
      else none
    | _ => some rest

/-- A time of day; seconds may be left out. -/
def time? (cs : List Char) : Option (List Char) := do
  let (hour, rest) ← twoDigits? cs
  let rest ← expect? ':' rest
  let (minute, rest) ← twoDigits? rest
  if 23 < hour ∨ 59 < minute then none
  else
    match rest with
    | ':' :: s => seconds? s
    | _ => some rest

/-- An offset from universal time. -/
def offset? (cs : List Char) : Option (List Char) :=
  match cs with
  | 'Z' :: rest => some rest
  | 'z' :: rest => some rest
  | c :: rest =>
    if c = '+' ∨ c = '-' then do
      let (hour, rest) ← twoDigits? rest
      let rest ← expect? ':' rest
      let (minute, rest) ← twoDigits? rest
      if 23 < hour ∨ 59 < minute then none else some rest
    else none
  | [] => none

/-- Whether a word is a date, a time, or both with or without an offset. -/
def isDatetime (cs : List Char) : Bool :=
  match date? cs with
  | some [] => true
  | some (c :: rest) =>
    if c = 'T' ∨ c = 't' ∨ c = ' ' then
      match time? rest with
      | some [] => true
      | some rest => offset? rest == some []
      | none => false
    else false
  | none => time? cs == some []

/-- A number with its sign taken off. -/
def unsigned? (negative : Bool) (cs : List Char) : Option Value :=
  if cs = ['i', 'n', 'f'] ∨ cs = ['n', 'a', 'n'] then some (.float true)
  else match decimalDigits? cs with
    | some ds => some (.integer (if negative then -(Double.digitsValue ds : Int)
        else Double.digitsValue ds))
    | none => float? negative cs

/-- A value that is written without quotes or brackets. -/
def word? (cs : List Char) : Option Value :=
  if cs = ['t', 'r', 'u', 'e'] then some (.boolean true)
  else if cs = ['f', 'a', 'l', 's', 'e'] then some (.boolean false)
  else if isDatetime cs then some .datetime
  else match cs with
    | '0' :: 'x' :: ds => prefixed? 16 isHexDigit ds
    | '0' :: 'o' :: ds => prefixed? 8 (fun c => '0' ≤ c && c ≤ '7') ds
    | '0' :: 'b' :: ds => prefixed? 2 (fun c => c == '0' || c == '1') ds
    | '+' :: ds => unsigned? false ds
    | '-' :: ds => unsigned? true ds
    | _ => unsigned? false cs

/-- The characters that words are made of. -/
def isWordChar (c : Char) : Bool :=
  c.isAlphanum || c == '_' || c == '-' || c == '+' || c == '.' || c == ':'

/-- A word; a date goes on behind a blank if a time follows. -/
def takeWord (cs : List Char) : List Char × List Char :=
  let first := cs.takeWhile isWordChar
  let rest := cs.dropWhile isWordChar
  match rest with
  | ' ' :: d :: more =>
    if date? first == some [] && d.isDigit then
      (first ++ ' ' :: (d :: more).takeWhile isWordChar, (d :: more).dropWhile isWordChar)
    else (first, rest)
  | _ => (first, rest)

/-! ## Values -/

/-- Deepest nesting of arrays and inline tables. -/
def depthLimit : Nat := 80

mutual

/-- A value; `depth` counts the brackets that may still be opened. -/
def value? : Nat → Nat → List Char → Reading Value
  | 0, _, _ => none
  | n + 1, depth, cs =>
    match cs with
    | '[' :: rest =>
      if depth = 0 then none
      else (items? n (depth - 1) (skipLines n rest)).map fun r => (.array r.1, r.2)
    | '\x7b' :: rest =>
      if depth = 0 then none
      else (fields? n (depth - 1) [] (skipLines n rest)).map fun r => (.table .inline r.1, r.2)
    | '"' :: _ => (string? n cs).map fun r => (.string r.1, r.2)
    | '\'' :: _ => (string? n cs).map fun r => (.string r.1, r.2)
    | _ =>
      let w := takeWord cs
      (word? w.1).map fun v => (v, w.2)

/-- The items of an array, behind its bracket or a comma. -/
def items? : Nat → Nat → List Char → Reading (List Value)
  | 0, _, _ => none
  | n + 1, depth, cs =>
    match cs with
    | ']' :: rest => some ([], rest)
    | _ =>
      (value? n depth cs).bind fun v =>
        match skipLines n v.2 with
        | ',' :: rest => (items? n depth (skipLines n rest)).map fun vs => (v.1 :: vs.1, vs.2)
        | ']' :: rest => some ([v.1], rest)
        | _ => none

/-- The fields of an inline table, behind its brace or a comma; lines may end on either side of
the equals sign. -/
def fields? : Nat → Nat → Entries → List Char → Reading Entries
  | 0, _, _, _ => none
  | n + 1, depth, done, cs =>
    match cs with
    | '\x7d' :: rest => some (done, rest)
    | _ =>
      (keyPath? n cs).bind fun k =>
        (splitLast? k.1).bind fun p =>
          match skipLines n k.2 with
          | '=' :: rest =>
            (value? n depth (skipLines n rest)).bind fun v =>
              (putAt p.1 p.2 v.1 .header done).bind fun done =>
                match skipLines n v.2 with
                | ',' :: rest => fields? n depth done (skipLines n rest)
                | '\x7d' :: rest => some (done, rest)
                | _ => none
          | _ => none

end

/-! ## Lines -/

/-- A document being read: the tree so far, and the path of the last header. -/
structure Progress where
  header : List String := []
  entries : Entries := []

/-- A header between brackets, the opening ones taken off. -/
def header? (n : Nat) (closing : List Char) (cs : List Char) : Reading (List String) :=
  (keyPath? n cs).bind fun k =>
    if closing.isPrefixOf k.2 then some (k.1, k.2.drop closing.length) else none

/-- One line that is not empty. -/
def line? (n : Nat) (p : Progress) (cs : List Char) : Option (Progress × List Char) :=
  match cs with
  | '[' :: '[' :: rest => do
    let (path, rest) ← header? n [']', ']'] rest
    let (before, key) ← splitLast? path
    let entries ← openNext before key p.entries
    some ({ header := path, entries := entries }, rest)
  | '[' :: rest => do
    let (path, rest) ← header? n [']'] rest
    let (before, key) ← splitLast? path
    let entries ← openTable before key p.entries
    some ({ header := path, entries := entries }, rest)
  | _ => do
    let (path, rest) ← keyPath? n cs
    let (before, key) ← splitLast? path
    let rest ← expect? '=' (skipBlanks rest)
    let (value, rest) ← value? n depthLimit (skipBlanks rest)
    let entries ← putUnder p.header before key value p.entries
    some ({ p with entries := entries }, rest)

/-- The lines of a document; `n` bounds every reader inside. -/
def lines? (n : Nat) : Nat → Progress → List Char → Option Progress
  | 0, _, _ => none
  | fuel + 1, p, cs =>
    match skipLines n cs with
    | [] => some p
    | cs =>
      (line? n p cs).bind fun r =>
        match endOfLine? r.2 with
        | none => none
        | some rest => lines? n fuel r.1 rest

/-- The entries of a document; a byte order mark at its start is skipped. -/
def ofText? (s : String) : Option Entries :=
  let cs := s.toList
  let cs := if cs.head? = some '\ufeff' then cs.drop 1 else cs
  let n := cs.length + 2
  (lines? n n {} cs).map Progress.entries

end Toml
end TreeStream
