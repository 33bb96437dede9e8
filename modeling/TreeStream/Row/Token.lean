import TreeStream.Row.Id
import TreeStream.Text.Hex

/-!
# Strings inside rows

A dollar or an at sign at the start of a string is reserved: alone it is a marker, and a dollar
with hexadecimal digits refers to the row of that id. A literal string with such a start gets one
more dollar, which reading takes off again (`unescape_escape`).
-/

namespace TreeStream

/-- What a string inside a row stands for. -/
inductive RowToken where
  | literal (text : String)
  | reference (id : RowId)
  | elementMarker
  | blockMarker
  deriving DecidableEq

namespace RowToken

def elementMark : String := "$"

def blockMark : String := "@"

def isReserved (c : Char) : Bool := c == '$' || c == '@'

def escapeChars : List Char → List Char
  | [] => []
  | c :: cs => if isReserved c then '$' :: c :: cs else c :: cs

/-- A literal string as it is written. -/
def escape (s : String) : String := String.ofList (escapeChars s.toList)

def referenceChars (id : RowId) : List Char := '$' :: Nat.toDigits 16 id.toNat

/-- The string that refers to a row. -/
def ofId (id : RowId) : String := String.ofList (referenceChars id)

/-- A row id in hexadecimal: at least one digit, a plus sign in front allowed, below `2 ^ 32`. -/
def readId? (cs : List Char) : Option RowId :=
  let digits := if cs.head? = some '+' then cs.drop 1 else cs
  if digits = [] then none
  else (Text.hexValue? 0 digits).bind fun n => if n < UInt32.size then some (RowId.ofNat n) else none

def parseChars (cs : List Char) : RowToken :=
  match cs with
  | ['$'] => elementMarker
  | ['@'] => blockMarker
  | '$' :: c :: rest =>
    if isReserved c then literal (String.ofList (c :: rest))
    else match readId? (c :: rest) with
      | some id => reference id
      | none => literal (String.ofList cs)
  | _ => literal (String.ofList cs)

/-- What a written string stands for. -/
def parse (s : String) : RowToken := parseChars s.toList

/-- The literal that a written string stands for; any other string is kept as it is. -/
def unescape (s : String) : String :=
  match parse s with
  | literal t => t
  | _ => s

theorem parseChars_escapeChars (cs : List Char) :
    parseChars (escapeChars cs) = literal (String.ofList cs) := by
  match cs with
  | [] => rfl
  | c :: cs =>
    by_cases h : isReserved c
    · simp [escapeChars, parseChars, h]
    · have hd : c ≠ '$' := by rintro rfl; exact h rfl
      have ha : c ≠ '@' := by rintro rfl; exact h rfl
      simp only [escapeChars, h, Bool.false_eq_true, if_false]
      unfold parseChars
      split <;> simp_all

theorem parse_escape (s : String) : parse (escape s) = literal s := by
  simp [parse, escape, parseChars_escapeChars]

theorem unescape_escape (s : String) : unescape (escape s) = s := by
  simp [unescape, parse_escape]

theorem toDigits_ne_mark (n : Nat) {c : Char} (hc : c ∈ Nat.toDigits 16 n) :
    isReserved c = false ∧ c ≠ '+' := by
  have hdigits : ∀ d < 16, isReserved (Nat.digitChar d) = false ∧ Nat.digitChar d ≠ '+' := by
    decide
  induction n using Nat.strongRecOn with
  | ind n ih =>
    by_cases hn : n < 16
    · rw [Nat.toDigits_of_lt_base hn, List.mem_singleton] at hc
      exact hc ▸ hdigits n hn
    · rw [Nat.toDigits_of_base_le (by decide) (by omega), List.mem_append,
        List.mem_singleton] at hc
      rcases hc with hc | rfl
      · exact ih (n / 16) (by omega) hc
      · exact hdigits (n % 16) (Nat.mod_lt n (by decide))

/-- The string that refers to a row is read as that reference. -/
theorem parse_ofId (id : RowId) : parse (ofId id) = reference id := by
  have hne : Nat.toDigits 16 id.toNat ≠ [] := Nat.toDigits_ne_nil
  obtain ⟨c, cs, hcs⟩ := List.exists_cons_of_ne_nil hne
  obtain ⟨hreserved, hplus⟩ := toDigits_ne_mark id.toNat (by rw [hcs]; exact List.mem_cons_self)
  have hread : readId? (c :: cs) = some id := by
    have hid : id.toNat < UInt32.size := id.val.toNat_lt
    have hval : RowId.ofNat id.toNat = id := by simp [RowId.ofNat, RowId.toNat]
    have hvalue : Text.hexValue? 0 (c :: cs) = some id.toNat := by
      rw [← hcs, Text.hexValue?_toDigits]
    simp [readId?, hplus, hvalue, hid, hval]
  rw [parse, ofId, referenceChars, String.toList_ofList, hcs]
  simp [parseChars, hreserved, hread]

end RowToken
end TreeStream
