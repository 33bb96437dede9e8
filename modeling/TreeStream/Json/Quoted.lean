/-!
# Quoted strings

A string in JSON stands between double quotes. Quotes, backslashes and control characters below
the blank are escaped, each control character by its short name where it has one; every other
character is written as it is.
-/

namespace TreeStream
namespace Json

/-- The letter behind the backslash of a short escape. -/
def shortEscape? (c : Char) : Option Char :=
  if c = '"' then some '"'
  else if c = '\\' then some '\\'
  else if c = '\x08' then some 'b'
  else if c = '\x0c' then some 'f'
  else if c = '\n' then some 'n'
  else if c = '\r' then some 'r'
  else if c = '\t' then some 't'
  else none

/-- The character that a short escape stands for. -/
def unescapeShort? (c : Char) : Option Char :=
  if c = '"' ∨ c = '\\' ∨ c = '/' then some c
  else if c = 'b' then some '\x08'
  else if c = 'f' then some '\x0c'
  else if c = 'n' then some '\n'
  else if c = 'r' then some '\r'
  else if c = 't' then some '\t'
  else none

/-- One character inside quotes. -/
def quotedChar (c : Char) : List Char :=
  match shortEscape? c with
  | some e => ['\\', e]
  | none =>
    if c.toNat < 0x20 then
      ['\\', 'u', '0', '0', Nat.digitChar (c.toNat / 16), Nat.digitChar (c.toNat % 16)]
    else [c]

def quotedChars (cs : List Char) : List Char := '"' :: cs.flatMap quotedChar ++ ['"']

/-- A string with its quotes. -/
def quote (s : String) : String := String.ofList (quotedChars s.toList)

theorem unescapeShort?_of_shortEscape? {c e : Char} (h : shortEscape? c = some e) :
    unescapeShort? e = some c := by
  unfold shortEscape? at h
  iterate 7
    split at h
    · rename_i hc
      cases h
      subst hc
      decide
  cases h

theorem le_toNat_of_shortEscape? {c e : Char} (h : shortEscape? c = some e) :
    0x20 ≤ e.toNat := by
  unfold shortEscape? at h
  iterate 7
    split at h
    · cases h
      decide
  cases h

/-- No control character is left inside quotes, so a quoted string never breaks a line. -/
theorem quotedChar_no_control (c d : Char) (h : d ∈ quotedChar c) : 0x20 ≤ d.toNat := by
  unfold quotedChar at h
  split at h
  · rename_i e he
    simp only [List.mem_cons, List.not_mem_nil, or_false] at h
    rcases h with rfl | rfl
    · decide
    · exact le_toNat_of_shortEscape? he
  · split at h
    · rename_i hc
      have hdigit : ∀ n : Nat, n < 16 → 0x20 ≤ (Nat.digitChar n).toNat := by decide
      simp only [List.mem_cons, List.not_mem_nil, or_false] at h
      rcases h with rfl | rfl | rfl | rfl | rfl | rfl
      · decide
      · decide
      · decide
      · decide
      · exact hdigit _ (by omega)
      · exact hdigit _ (by omega)
    · simp only [List.mem_singleton] at h
      subst h
      omega

end Json
end TreeStream
