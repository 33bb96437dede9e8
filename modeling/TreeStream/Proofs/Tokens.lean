import Mathlib.Data.Set.BooleanAlgebra
import Mathlib.Order.CompletePartialOrder
import TreeStream.Row.Token

/-!
# Tokens and the strings that stand for them

Each token has one way of being written, and reading undoes it (`parse_text`). So no string is
written for two tokens: literals, references and marks never get into each other's way.
-/

namespace TreeStream
namespace RowToken

def text : RowToken → String
  | literal s => escape s
  | reference id => ofId id
  | elementMarker => elementMark
  | blockMarker => blockMark

theorem parse_text (t : RowToken) : parse t.text = t := by
  cases t with
  | literal s => exact parse_escape s
  | reference id => exact parse_ofId id
  | elementMarker => rfl
  | blockMarker => rfl

theorem text_injective : Function.Injective text := Function.LeftInverse.injective parse_text

/-- Tokens of two kinds are written in two disjoint sets of strings. -/
theorem disjoint_texts {kind kind' : Set RowToken} (h : Disjoint kind kind') :
    Disjoint (text '' kind) (text '' kind') :=
  (Set.disjoint_image_iff text_injective).mpr h

theorem range_escape : Set.range escape = text '' Set.range literal := by
  rw [← Set.range_comp]
  rfl

theorem range_ofId : Set.range ofId = text '' Set.range reference := by
  rw [← Set.range_comp]
  rfl

theorem marks_eq :
    ({elementMark, blockMark} : Set String) = text '' {elementMarker, blockMarker} := by
  rw [Set.image_pair]
  rfl

/-- What is written is read back: a literal string from its escaped form, whether its token is asked
for or only its text, and an id from the string that refers to it. Escaped strings, references and
the two marks are disjoint, so no two literals and no two ids are written alike, and no literal is
ever read as a reference or as a mark. -/
theorem written_apart :
    (∀ s, parse (escape s) = literal s ∧ unescape (escape s) = s) ∧
    (∀ id, parse (ofId id) = reference id) ∧
    Disjoint (Set.range escape) (Set.range ofId) ∧
    Disjoint (Set.range escape) {elementMark, blockMark} ∧
    Disjoint (Set.range ofId) {elementMark, blockMark} ∧ elementMark ≠ blockMark ∧
    Function.Injective escape ∧ Function.Injective ofId ∧
    ∀ s, (∀ id, parse (escape s) ≠ reference id) ∧ parse (escape s) ≠ elementMarker ∧
      parse (escape s) ≠ blockMarker := by
  have hread : ∀ s, parse (escape s) = literal s := parse_escape
  have hliterals : Disjoint (Set.range literal) (Set.range reference) :=
    Set.disjoint_left.mpr fun _ ⟨_, hs⟩ ⟨_, hid⟩ => nomatch hs.trans hid.symm
  have hmarks : ∀ {α : Type} {f : α → RowToken},
      (∀ a, f a ≠ elementMarker) → (∀ a, f a ≠ blockMarker) →
        Disjoint (Set.range f) {elementMarker, blockMarker} := by
    intro α f he hb
    refine Set.disjoint_left.mpr ?_
    rintro _ ⟨a, rfl⟩ (h | h)
    · exact he a h
    · exact hb a h
  refine ⟨fun s => ⟨hread s, unescape_escape s⟩, parse_ofId, ?_, ?_, ?_, ?_, ?_, ?_, fun s => ?_⟩
  · rw [range_escape, range_ofId]
    exact disjoint_texts hliterals
  · rw [range_escape, marks_eq]
    exact disjoint_texts (hmarks nofun nofun)
  · rw [range_ofId, marks_eq]
    exact disjoint_texts (hmarks nofun nofun)
  · decide
  · exact fun s s' h => literal.inj (text_injective h)
  · exact fun id id' h => reference.inj (text_injective h)
  · rw [hread s]
    exact ⟨nofun, nofun, nofun⟩

end RowToken
end TreeStream
