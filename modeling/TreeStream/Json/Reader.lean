import TreeStream.Double.Reading
import TreeStream.Json.Basic
import TreeStream.Json.Quoted
import TreeStream.Text.Hex

/-!
# Reading JSON text

The characters are cut into tokens, and the tokens drive a machine with a stack of open containers,
so both passes are folds over a list and need no bound of their own. Containers may be nested 127
deep. A text with a fault anywhere reads as nothing; which fault it was is never asked.
-/

namespace TreeStream
namespace Json

/-- Deepest nesting of arrays and objects. -/
def depthLimit : Nat := 127

/-! ## Numbers -/

def digitValue (c : Char) : Nat := c.toNat - '0'.toNat

/-- Digits before the point go into a significand below `2 ^ 64`; from the first one that does not
fit on, they are only counted. -/
def wholeDigits (significand : Nat) : List Char → Nat × Nat
  | [] => (significand, 0)
  | c :: cs =>
    let next := 10 * significand + digitValue c
    if next < UInt64.size then wholeDigits next cs else (significand, cs.length + 1)

/-- Digits behind the point go into the significand up to the first one that does not fit; the
others are dropped. The second part is the number of digits taken. -/
def fractionDigits (significand taken : Nat) : List Char → Nat × Nat
  | [] => (significand, taken)
  | c :: cs =>
    let next := 10 * significand + digitValue c
    if next < UInt64.size then fractionDigits next (taken + 1) cs else (significand, taken)

/-- The parts of the text of a number. -/
structure NumberText where
  negative : Bool
  whole : List Char
  fraction : Option (List Char)
  exponent : Option Int

/-- A whole number without fraction and exponent stays an integer while 64 bits hold it; minus zero
is a double. -/
def NumberText.value? (t : NumberText) : Option JsonNumber :=
  let n := Double.digitsValue t.whole
  let integral := t.fraction.isNone && t.exponent.isNone
  if integral && !t.negative && n < UInt64.size then some (.int n)
  else if integral && t.negative && 0 < n && n ≤ 1 <<< 63 then some (.int (-(n : Int)))
  else
    let w := wholeDigits 0 t.whole
    let f := fractionDigits w.1 0 (t.fraction.getD [])
    (Double.ofScaledSignificand? t.negative f.1 (w.2 - f.2 + t.exponent.getD 0)).map .float

def isExponentMark (c : Char) : Bool := c == 'e' || c == 'E'

/-- A minus sign, digits without a needless zero in front, a fraction, an exponent. -/
def numberText? (cs : List Char) : Option NumberText :=
  let negative := cs.head? == some '-'
  let body := if negative then cs.drop 1 else cs
  let whole := body.takeWhile Char.isDigit
  let rest := body.dropWhile Char.isDigit
  if whole.isEmpty || (whole.head? == some '0' && 1 < whole.length) then none
  else
    let fraction? := match rest with
      | '.' :: r => some (r.takeWhile Char.isDigit)
      | _ => none
    let rest := match rest with
      | '.' :: r => r.dropWhile Char.isDigit
      | r => r
    if fraction? == some [] then none
    else match rest with
      | [] => some ⟨negative, whole, fraction?, none⟩
      | c :: r =>
        if isExponentMark c then
          (Double.exponentOf? r).map fun e => ⟨negative, whole, fraction?, some e⟩
        else none

/-! ## Tokens -/

inductive Token where
  | beginItems
  | endItems
  | beginFields
  | endFields
  | comma
  | colon
  | string (text : String)
  | atom (value : Json)

/-- The token of a run of characters outside strings. -/
def wordToken? (word : List Char) : Option Token :=
  if word = ['n', 'u', 'l', 'l'] then some (.atom .null)
  else if word = ['t', 'r', 'u', 'e'] then some (.atom (.bool true))
  else if word = ['f', 'a', 'l', 's', 'e'] then some (.atom (.bool false))
  else (numberText? word).bind fun t => t.value?.map fun n => .atom (.number n)

/-- Where the scanner stands inside a string. A code unit of a surrogate pair waits for the escape
of its partner. -/
inductive StringState where
  | plain
  | escape
  | hex (lead : Option Nat) (seen value : Nat)
  | partner (lead : Nat)
  | partnerMark (lead : Nat)

/-- What four hexadecimal digits add to a string: a character, or the wait for a partner. A
surrogate without its partner is refused. -/
def finishHex (lead : Option Nat) (value : Nat) (text : List Char) :
    Option (StringState × List Char) :=
  let isLead := 0xd800 ≤ value && value < 0xdc00
  let isTrail := 0xdc00 ≤ value && value < 0xe000
  match lead with
  | none =>
    if isLead then some (.partner value, text)
    else if isTrail then none
    else some (.plain, Char.ofNat value :: text)
  | some l =>
    if isTrail then
      some (.plain, Char.ofNat (0x10000 + (l - 0xd800) * 0x400 + (value - 0xdc00)) :: text)
    else none

/-- One character inside a string that does not end it; `text` is reversed. -/
def stringStep (state : StringState) (text : List Char) (c : Char) :
    Option (StringState × List Char) :=
  match state with
  | .plain =>
    if c = '\\' then some (.escape, text)
    else if c.toNat < 0x20 then none
    else some (.plain, c :: text)
  | .escape =>
    if c = 'u' then some (.hex none 0 0, text)
    else (unescapeShort? c).map fun d => (.plain, d :: text)
  | .hex lead seen value =>
    (Text.hexDigit? c).bind fun d =>
      let value := 16 * value + d
      if seen = 3 then finishHex lead value text else some (.hex lead (seen + 1) value, text)
  | .partner lead => if c = '\\' then some (.partnerMark lead, text) else none
  | .partnerMark lead => if c = 'u' then some (.hex (some lead) 0 0, text) else none

/-- Where the scanner stands. -/
inductive ScanState where
  | between
  | word (reversed : List Char)
  | quoted (state : StringState) (reversed : List Char)

def isBlank (c : Char) : Bool := c == ' ' || c == '\n' || c == '\t' || c == '\r'

def punctuation? (c : Char) : Option Token :=
  if c = '[' then some .beginItems
  else if c = ']' then some .endItems
  else if c = '{' then some .beginFields
  else if c = '}' then some .endFields
  else if c = ',' then some .comma
  else if c = ':' then some .colon
  else none

/-- A character between tokens starts a string or a word, is a token, or is a blank. -/
def startToken (c : Char) (done : List Token) : ScanState × List Token :=
  if c = '"' then (.quoted .plain [], done)
  else if isBlank c then (.between, done)
  else match punctuation? c with
    | some t => (.between, t :: done)
    | none => (.word [c], done)

/-- One character; `done` holds the tokens so far, reversed. -/
def scanStep (state : ScanState) (done : List Token) (c : Char) : Option (ScanState × List Token) :=
  match state with
  | .between => some (startToken c done)
  | .word w =>
    if c = '"' || isBlank c || (punctuation? c).isSome then
      (wordToken? w.reverse).map fun t => startToken c (t :: done)
    else some (.word (c :: w), done)
  | .quoted .plain text =>
    if c = '"' then some (.between, .string (String.ofList text.reverse) :: done)
    else (stringStep .plain text c).map fun s => (.quoted s.1 s.2, done)
  | .quoted s text => (stringStep s text c).map fun s => (.quoted s.1 s.2, done)

/-- The tokens of a text. -/
def tokens? (cs : List Char) : Option (List Token) :=
  (cs.foldlM (fun s c => scanStep s.1 s.2 c) (ScanState.between, [])).bind fun s =>
    match s.1 with
    | .between => some s.2.reverse
    | .word w => (wordToken? w.reverse).map fun t => (t :: s.2).reverse
    | .quoted _ _ => none

/-! ## Values -/

/-- A container that waits for the value being read. -/
inductive Frame where
  | items (reversed : List Json)
  | field (done : Record Json) (key : String)

/-- What may come next. -/
inductive ReadState where
  | value (stack : List Frame)
  | firstItem (stack : List Frame)
  | key (done : Record Json) (first : Bool) (stack : List Frame)
  | colon (done : Record Json) (key : String) (stack : List Frame)
  | finished (value : Json) (stack : List Frame)

/-- A value begins; a container begins only if the limit on nesting allows it. -/
def beginValue (stack : List Frame) : Token → Option ReadState
  | .atom j => some (.finished j stack)
  | .string s => some (.finished (.string s) stack)
  | .beginItems => if stack.length < depthLimit then some (.firstItem stack) else none
  | .beginFields => if stack.length < depthLimit then some (.key .empty true stack) else none
  | _ => none

def readStep : ReadState → Token → Option ReadState
  | .value stack, t => beginValue stack t
  | .firstItem stack, .endItems => some (.finished (.array []) stack)
  | .firstItem stack, t => beginValue (.items [] :: stack) t
  | .key done _ stack, .string s => some (.colon done s stack)
  | .key _ true stack, .endFields => some (.finished (.object []) stack)
  | .colon done k stack, .colon => some (.value (.field done k :: stack))
  | .finished v (.items done :: stack), .comma => some (.value (.items (v :: done) :: stack))
  | .finished v (.items done :: stack), .endItems =>
    some (.finished (.array (v :: done).reverse) stack)
  | .finished v (.field done k :: stack), .comma => some (.key (done.insert k v) false stack)
  | .finished v (.field done k :: stack), .endFields =>
    some (.finished (.object (done.insert k v).entries) stack)
  | _, _ => none

/-- The value that a list of tokens spells. -/
def ofTokens? (ts : List Token) : Option Json :=
  (ts.foldlM readStep (ReadState.value [])).bind fun s =>
    match s with
    | .finished v [] => some v
    | _ => none

/-- The value of a JSON text, of which a repeated key keeps its last value in its first place. -/
def ofText? (s : String) : Option Json := (tokens? s.toList).bind ofTokens?

end Json
end TreeStream
