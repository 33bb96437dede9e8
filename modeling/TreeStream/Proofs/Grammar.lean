import Mathlib.Data.List.Induction
import TreeStream.Row.Token

/-!
# The grammar of references

A reference is a dollar and hexadecimal digits. Which number the digits spell is said here by a
grammar, one digit after the other, and the reader is compared with it: it takes every reference of
the grammar whose number is an id, and one kind of string more, where a plus sign stands before the
digits (`parse_grammatical`).
-/

namespace TreeStream
namespace RowToken

open Text (hexDigit? hexDigit?_digitChar hexValue? hexValue?_append)

/-- A hexadecimal digit, in either case, and what it counts for. -/
def HexDigit (c : Char) (d : Nat) : Prop :=
  d < 16 ∧ (c = Nat.digitChar d ∨ c = (Nat.digitChar d).toUpper)

instance (c : Char) (d : Nat) : Decidable (HexDigit c d) := by
  unfold HexDigit
  infer_instance

/-- One or more hexadecimal digits and nothing else, and the number that they spell. -/
inductive Spells : List Char → Nat → Prop where
  | digit {c : Char} {d : Nat} : HexDigit c d → Spells [c] d
  | append {cs : List Char} {n : Nat} {c : Char} {d : Nat} :
      Spells cs n → HexDigit c d → Spells (cs ++ [c]) (16 * n + d)

theorem hexDigit?_eq_some_iff {c : Char} {d : Nat} : hexDigit? c = some d ↔ HexDigit c d := by
  constructor
  · intro h
    have hascii : c.toNat < 128 := by
      by_contra hlarge
      have hout : ∀ top : Char, top.toNat < 128 → ¬ c ≤ top :=
        fun top htop hle => hlarge (Nat.lt_of_le_of_lt hle htop)
      simp [hexDigit?, hout '9' (by decide), hout 'f' (by decide), hout 'F' (by decide)] at h
    have htable : ∀ k < 128, ∀ d ∈ hexDigit? (Char.ofNat k), HexDigit (Char.ofNat k) d := by
      decide +kernel
    have hdigit := htable c.toNat hascii d
    rw [Char.ofNat_toNat] at hdigit
    exact hdigit h
  · rintro ⟨hd, h⟩
    have hupper : ∀ d < 16, hexDigit? (Nat.digitChar d).toUpper = some d := by
      decide +kernel
    rcases h with rfl | rfl
    · exact hexDigit?_digitChar d hd
    · exact hupper d hd

theorem HexDigit.ne_mark {c : Char} {d : Nat} (h : HexDigit c d) :
    isReserved c = false ∧ c ≠ '+' := by
  obtain ⟨hd, h⟩ := h
  have hlower : ∀ d < 16, isReserved (Nat.digitChar d) = false ∧ Nat.digitChar d ≠ '+' := by
    decide +kernel
  have hupper : ∀ d < 16, isReserved (Nat.digitChar d).toUpper = false ∧
      (Nat.digitChar d).toUpper ≠ '+' := by
    decide +kernel
  rcases h with rfl | rfl
  · exact hlower d hd
  · exact hupper d hd

theorem Spells.ne_nil {cs : List Char} {n : Nat} (h : Spells cs n) : cs ≠ [] := by
  cases h <;> simp

theorem Spells.digit_of_mem {cs : List Char} {n : Nat} (h : Spells cs n) :
    ∀ c ∈ cs, ∃ d, HexDigit c d := by
  induction h with
  | digit hd => simpa using ⟨_, hd⟩
  | append _ hd ih =>
    intro c hc
    rcases List.mem_append.mp hc with hc | hc
    · exact ih c hc
    · exact ⟨_, List.mem_singleton.mp hc ▸ hd⟩

theorem Spells.not_plus {cs : List Char} {n : Nat} : ¬ Spells ('+' :: cs) n := by
  intro h
  obtain ⟨d, hd⟩ := h.digit_of_mem '+' List.mem_cons_self
  exact hd.ne_mark.2 rfl

/-- The reader of digits computes what the grammar says. -/
theorem hexValue?_eq_some_iff {cs : List Char} {n : Nat} (hne : cs ≠ []) :
    hexValue? 0 cs = some n ↔ Spells cs n := by
  constructor
  · intro h
    -- from the right, since what the first digit counts for is known only behind the last one
    induction cs using List.reverseRecOn generalizing n with
    | nil => exact absurd rfl hne
    | append_singleton cs c ih =>
      rw [hexValue?_append, Option.bind_eq_some_iff] at h
      obtain ⟨m, hm, hc⟩ := h
      simp only [hexValue?, Option.bind_eq_some_iff, Option.some.injEq] at hc
      obtain ⟨d, hd, rfl⟩ := hc
      have hdigit := hexDigit?_eq_some_iff.mp hd
      by_cases hcs : cs = []
      · subst hcs
        obtain rfl : 0 = m := Option.some.inj hm
        simpa using Spells.digit hdigit
      · exact Spells.append (ih hcs hm) hdigit
  · intro h
    clear hne
    induction h with
    | digit hd => simp [hexValue?, hexDigit?_eq_some_iff.mpr hd]
    | append _ hd ih => simp [hexValue?_append, ih, hexValue?, hexDigit?_eq_some_iff.mpr hd]

theorem Spells.unique {cs : List Char} {m n : Nat} (hm : Spells cs m) (hn : Spells cs n) :
    m = n := by
  have hread := (hexValue?_eq_some_iff hm.ne_nil).mpr hm
  rw [(hexValue?_eq_some_iff hn.ne_nil).mpr hn] at hread
  exact (Option.some.inj hread).symm

theorem id_of_digits_iff {cs : List Char} {id : RowId} :
    (if cs = [] then none else
      (hexValue? 0 cs).bind fun n => if n < UInt32.size then some (RowId.ofNat n) else none) =
        some id ↔ Spells cs id.toNat := by
  by_cases hne : cs = []
  · simpa [hne] using fun h => Spells.ne_nil h rfl
  rw [if_neg hne, ← hexValue?_eq_some_iff hne]
  constructor
  · intro h
    obtain ⟨n, hn, hid⟩ := Option.bind_eq_some_iff.mp h
    obtain ⟨hlt, hid⟩ := Option.ite_none_right_eq_some.mp hid
    obtain rfl := Option.some.inj hid
    have hnat : (RowId.ofNat n).toNat = n := by
      simpa [RowId.ofNat, RowId.toNat] using Nat.mod_eq_of_lt hlt
    rw [hn, hnat]
  · intro h
    have hlt : id.toNat < UInt32.size := id.val.toNat_lt
    rw [h, Option.bind_some, if_pos hlt]
    simp [RowId.ofNat, RowId.toNat]

/-- An id is read from digits that spell it, bare or behind one plus sign. -/
theorem readId?_eq_some_iff {cs : List Char} {id : RowId} :
    readId? cs = some id ↔ ∃ ds, (cs = ds ∨ cs = '+' :: ds) ∧ Spells ds id.toNat := by
  unfold readId?
  dsimp only
  rw [id_of_digits_iff]
  by_cases hplus : cs.head? = some '+'
  · obtain ⟨ds, rfl⟩ := List.head?_eq_some_iff.mp hplus
    have hsign : ¬ Spells ('+' :: ds) id.toNat := Spells.not_plus
    simp [hsign]
  · have hbare : ∀ ds, cs ≠ '+' :: ds := by
      rintro ds rfl
      exact hplus rfl
    simp [hplus, hbare]

theorem parseChars_eq_elementMarker_iff {cs : List Char} :
    parseChars cs = elementMarker ↔ cs = ['$'] := by
  constructor
  · intro h
    unfold parseChars at h
    grind
  · rintro rfl
    rfl

theorem parseChars_eq_blockMarker_iff {cs : List Char} :
    parseChars cs = blockMarker ↔ cs = ['@'] := by
  constructor
  · intro h
    unfold parseChars at h
    grind
  · rintro rfl
    rfl

theorem parseChars_eq_reference_iff {cs : List Char} {id : RowId} :
    parseChars cs = reference id ↔
      ∃ ds, (cs = '$' :: ds ∨ cs = '$' :: '+' :: ds) ∧ Spells ds id.toNat := by
  constructor
  · intro h
    unfold parseChars at h
    split at h
    case h_3 c rest =>
      split at h
      case isTrue => cases h
      case isFalse =>
        split at h
        case h_1 _ id' hread =>
          obtain rfl := reference.inj h
          obtain ⟨ds, hds, hspells⟩ := readId?_eq_some_iff.mp hread
          exact ⟨ds, by simpa using hds, hspells⟩
        case h_2 => cases h
    all_goals cases h
  · rintro ⟨ds, hcs, hspells⟩
    obtain ⟨c, rest, rfl, hc, hread⟩ :
        ∃ c rest, cs = '$' :: c :: rest ∧ isReserved c = false ∧ readId? (c :: rest) = some id := by
      obtain ⟨c, rest, rfl⟩ := List.exists_cons_of_ne_nil hspells.ne_nil
      rcases hcs with rfl | rfl
      · obtain ⟨d, hd⟩ := hspells.digit_of_mem c List.mem_cons_self
        exact ⟨c, rest, rfl, hd.ne_mark.1, readId?_eq_some_iff.mpr ⟨_, .inl rfl, hspells⟩⟩
      · exact ⟨'+', c :: rest, rfl, rfl, readId?_eq_some_iff.mpr ⟨_, .inr rfl, hspells⟩⟩
    simp [parseChars, hc, hread]

/-- A literal is the string itself, or what follows the dollar in front of a reserved character. -/
theorem parseChars_eq_literal {cs : List Char} {t : String} (h : parseChars cs = literal t) :
    cs = t.toList ∨ cs = '$' :: t.toList ∧ ∃ c ∈ t.toList.head?, isReserved c = true := by
  unfold parseChars at h
  split at h
  case h_3 c rest =>
    split at h
    case isTrue hc =>
      obtain rfl := literal.inj h
      simpa using hc
    case isFalse =>
      split at h
      case h_1 => cases h
      case h_2 =>
        obtain rfl := literal.inj h
        simp
  case h_4 =>
    obtain rfl := literal.inj h
    simp
  all_goals cases h

/-- Reading follows the grammar, with one exception. A string stands for a reference exactly if it
is a dollar and hexadecimal digits that spell its id, where a plus sign may stand before the digits;
without that plus sign the grammar is met exactly. Digits that spell more than any id refer to nothing.
The marks are exactly the two strings of one character. Every other string is a literal: the string
itself, or what follows the dollar in front of a reserved character. -/
theorem parse_grammatical (s : String) :
    (∀ id, parse s = reference id ↔
      ∃ ds, (s.toList = '$' :: ds ∨ s.toList = '$' :: '+' :: ds) ∧ Spells ds id.toNat) ∧
    ((∀ ds, s.toList ≠ '$' :: '+' :: ds) → ∀ id, parse s = reference id ↔
      ∃ ds, s.toList = '$' :: ds ∧ Spells ds id.toNat) ∧
    (∀ ds n, s.toList = '$' :: ds → Spells ds n → UInt32.size ≤ n →
      ∀ id, parse s ≠ reference id) ∧
    (parse s = elementMarker ↔ s = elementMark) ∧ (parse s = blockMarker ↔ s = blockMark) ∧
    ((∀ id, parse s ≠ reference id) → s ≠ elementMark → s ≠ blockMark →
      ∃ t, parse s = literal t ∧
        (s = t ∨ s.toList = '$' :: t.toList ∧ ∃ c ∈ t.toList.head?, isReserved c = true)) := by
  have hreference : ∀ id, parse s = reference id ↔
      ∃ ds, (s.toList = '$' :: ds ∨ s.toList = '$' :: '+' :: ds) ∧ Spells ds id.toNat :=
    fun id => parseChars_eq_reference_iff
  have helement : parse s = elementMarker ↔ s = elementMark := by
    rw [parse, parseChars_eq_elementMarker_iff, ← String.toList_inj]
    rfl
  have hblock : parse s = blockMarker ↔ s = blockMark := by
    rw [parse, parseChars_eq_blockMarker_iff, ← String.toList_inj]
    rfl
  refine ⟨hreference, ?_, ?_, helement, hblock, ?_⟩
  · intro hplus id
    rw [hreference]
    constructor
    · rintro ⟨ds, hs | hs, hspells⟩
      · exact ⟨ds, hs, hspells⟩
      · exact absurd hs (hplus ds)
    · rintro ⟨ds, hs, hspells⟩
      exact ⟨ds, .inl hs, hspells⟩
  · intro ds n hs hspells hlarge id hid
    have hsmall : id.toNat < UInt32.size := id.val.toNat_lt
    obtain ⟨ds', hs' | hs', hspells'⟩ := (hreference id).mp hid
    · obtain rfl : ds = ds' := (List.cons.inj (hs.symm.trans hs')).2
      exact absurd (hspells.unique hspells') (by omega)
    · obtain rfl : ds = '+' :: ds' := (List.cons.inj (hs.symm.trans hs')).2
      exact hspells.not_plus
  · intro hnone hmark hmark'
    cases htoken : parse s with
    | literal t =>
      rcases parseChars_eq_literal htoken with hs | hs
      · exact ⟨t, rfl, .inl (String.toList_inj.mp hs)⟩
      · exact ⟨t, rfl, .inr hs⟩
    | reference id => exact absurd htoken (hnone id)
    | elementMarker => exact absurd (helement.mp htoken) hmark
    | blockMarker => exact absurd (hblock.mp htoken) hmark'

/-- A dollar, a plus sign and digits are taken for a reference, though they are not of its
grammar. -/
theorem plus_accepted :
    parse "$+1a" = reference (RowId.ofNat 26) ∧
      ¬ ∃ ds n, "$+1a".toList = '$' :: ds ∧ Spells ds n := by
  refine ⟨by decide +kernel, ?_⟩
  rintro ⟨ds, n, hs, hspells⟩
  obtain rfl : ['+', '1', 'a'] = ds := (List.cons.inj hs).2
  exact hspells.not_plus

end RowToken
end TreeStream
