import TreeStream.Proofs.PlainLines
import TreeStream.Settings

/-!
# Settings saved and read back

The document of settings has four plain lines, which read as the entries that make just these
settings (`ofText?_document`, `ofEntries?_saved`). A document that another hand has written is read
only as settings that are valid, so what was read can be saved again (`saved_settings_restored`).
-/

namespace TreeStream
namespace Settings

open Toml

/-! ## The document of settings -/

def savedStream (s : Settings) : Toml.Entries := [("high_water_mark", .integer s.highWaterMark)]

def saved (s : Settings) : Toml.Entries :=
  [("mode", .string s.mode.text), ("strict_checks", .boolean s.strictChecks),
    ("stream", .table .header s.savedStream)]

theorem limitOfValue?_natCast {n : Nat} (h : n < UInt64.size) :
    limitOfValue? (.integer n) = some n := by
  rw [limitOfValue?, if_pos ⟨Int.natCast_nonneg n, Int.ofNat_lt.mpr h⟩, Int.toNat_natCast]

theorem ofEntries?_saved {s : Settings} (h : s.highWaterMark < UInt64.size) :
    ofEntries? s.saved = some s := by
  have hmode : (s.saved.lookup "mode").bind modeOf? = some s.mode := by
    change modeOf? (.string s.mode.text) = some s.mode
    cases s.mode <;> rfl
  have hstrict : s.saved.lookup "strict_checks" = some (.boolean s.strictChecks) := rfl
  have hstream : s.saved.lookup "stream" = some (.table .header s.savedStream) := rfl
  have hlimit : streamOf? (.table .header s.savedStream) = some s.highWaterMark := by
    have hfound : s.savedStream.lookup "high_water_mark" = some (.integer s.highWaterMark) := rfl
    have hothers : others ["high_water_mark"] s.savedStream = [] := rfl
    rw [streamOf?, hothers, entriesReadable, if_pos rfl, hfound, Option.bind_some,
      limitOfValue?_natCast h]
  have hothers : others ["mode", "strict_checks", "stream"] s.saved = [] := rfl
  simp only [ofEntries?, hmode, hstrict, hstream, hlimit, hothers, entriesReadable, if_true,
    Option.bind_eq_bind, Option.bind_some]

theorem toList_document (s : Settings) :
    s.document.toList =
      "mode".toList ++ ' ' :: '=' :: ' ' :: '"' :: (s.mode.text.toList ++ '"' :: '\n' ::
      ("strict_checks".toList ++ ' ' :: '=' :: ' ' ::
        ((if s.strictChecks then "true" else "false").toList ++ '\n' :: '\n' ::
      '[' :: ("stream".toList ++ ']' :: '\n' ::
      ("high_water_mark".toList ++ ' ' :: '=' :: ' ' ::
        (Nat.toDigits 10 s.highWaterMark ++ ['\n'])))))) := by
  simp [document]

theorem value?_mode (mode : Mode) {n : Nat} (hn : 11 < n) (rest : List Char) :
    value? (n + 1) depthLimit ('"' :: (mode.text.toList ++ '"' :: rest)) =
      some (.string mode.text, rest) := by
  have hplain : ∀ c ∈ mode.text.toList, isPlain c = true :=
    List.all_eq_true.mp (by cases mode <;> decide)
  have hlength : mode.text.toList.length ≤ 11 := by cases mode <;> decide
  have hvalue := value?_string (by cases mode <;> decide) hplain
    (Nat.lt_of_le_of_lt hlength hn) depthLimit rest
  rwa [String.ofList_toList] at hvalue

theorem value?_strictChecks (b : Bool) (n : Nat) (rest : List Char) :
    value? (n + 1) depthLimit ((if b then "true" else "false").toList ++ '\n' :: rest) =
      some (.boolean b, '\n' :: rest) := by
  have hword : ∀ c ∈ (if b then "true" else "false").toList, isWordChar c = true :=
    List.all_eq_true.mp (by cases b <;> decide)
  rw [value?_word (by cases b <;> decide) hword]
  cases b <;> rfl

theorem value?_limit (i n : Nat) (rest : List Char) :
    value? (n + 1) depthLimit (Nat.toDigits 10 i ++ '\n' :: rest) =
      some (.integer i, '\n' :: rest) := by
  rw [value?_word Nat.toDigits_ne_nil, word?_toDigits]
  · rfl
  · intro c hc
    have hdigit := Nat.isDigit_of_mem_toDigits (by decide) (by decide) hc
    simp [isWordChar, Char.isAlphanum, hdigit]

/-- Four lines are read, and between the second and the third an empty one. -/
theorem lines?_document (s : Settings) (n f : Nat) :
    lines? (n + 13) (f + 5) {} s.document.toList = some ⟨["stream"], s.saved⟩ := by
  have hmode : IsBare "mode" := by decide
  have hstrict : IsBare "strict_checks" := by decide
  have hstream : IsBare "stream" := by decide
  have hlimit : IsBare "high_water_mark" := by decide
  have hword : ∀ rest : List Char,
      skipBlanks ((if s.strictChecks then "true" else "false").toList ++ rest) =
        (if s.strictChecks then "true" else "false").toList ++ rest := by
    cases s.strictChecks <;> exact fun rest => rfl
  have hdigits : skipBlanks (Nat.toDigits 10 s.highWaterMark ++ ['\n']) =
      Nat.toDigits 10 s.highWaterMark ++ ['\n'] := by
    obtain ⟨c, cs, hcs⟩ := List.exists_cons_of_ne_nil (Nat.toDigits_ne_nil (n := s.highWaterMark))
    have hmem : c ∈ Nat.toDigits 10 s.highWaterMark := hcs ▸ List.mem_cons_self
    have hc := Nat.isDigit_of_mem_toDigits (by decide) (by decide) hmem
    rw [hcs]
    refine skipBlanks_cons ?_ _
    simp [isBlank, ne_of_class hc (d := ' '), ne_of_class hc (d := '\t')]
  rw [toList_document,
    lines?_assignment hmode rfl (value?_mode s.mode (by omega) _) rfl,
    lines?_assignment hstrict (hword _) (value?_strictChecks s.strictChecks _ _) rfl,
    lines?_empty_line _ (by decide), lines?_header hstream rfl,
    lines?_assignment hlimit hdigits (value?_limit s.highWaterMark _ []) rfl]
  exact lines?_nil _ f _

theorem ofText?_document (s : Settings) : ofText? s.document = some s.saved := by
  have hlength : 13 ≤ s.document.toList.length := by
    rw [toList_document]
    simp only [List.length_append, List.length_cons]
    omega
  have hhead : s.document.toList.head? = some 'm' := by
    rw [toList_document]
    rfl
  obtain ⟨n, hn⟩ : ∃ n, s.document.toList.length + 2 = n + 13 :=
    ⟨s.document.toList.length - 11, by omega⟩
  rw [ofText?]
  simp only [hhead]
  rw [if_neg (by decide), hn, lines?_document s n (n + 8)]
  rfl

/-! ## Files -/

theorem validated_eq_ok {s t : Settings} : s.validated = .ok t ↔ s = t ∧ s.validate = .ok () := by
  unfold validated
  cases h : s.validate with
  | ok u => simp
  | error e => simp

theorem limitOfValue?_lt {v : Value} {n : Nat} (h : limitOfValue? v = some n) :
    n < UInt64.size := by
  unfold limitOfValue? at h
  split at h
  · split at h
    · next hi =>
      obtain rfl := Option.some.inj h
      exact (Int.toNat_lt hi.1).mpr hi.2
    · cases h
  · cases h

theorem streamOf?_lt {v : Value} {n : Nat} (h : streamOf? v = some n) : n < UInt64.size := by
  unfold streamOf? at h
  split at h
  · split at h
    · obtain ⟨limit, -, hlimit⟩ := Option.bind_eq_some_iff.mp h
      exact limitOfValue?_lt hlimit
    · cases h
  · exact limitOfValue?_lt h
  · cases h

/-- A document gives no limit that a machine word cannot hold. -/
theorem ofEntries?_lt {es : Toml.Entries} {s : Settings} (h : ofEntries? es = some s) :
    s.highWaterMark < UInt64.size := by
  simp only [ofEntries?, Option.bind_eq_bind, Option.bind_eq_some_iff] at h
  obtain ⟨mode, -, h⟩ := h
  cases hstream : es.lookup "stream" with
  | none =>
    have hlimit : defaultHighWaterMark < UInt64.size := by decide
    grind
  | some v =>
    cases hread : streamOf? v with
    | none => grind
    | some limit =>
      have hlimit : limit < UInt64.size := streamOf?_lt hread
      grind

theorem ofDocument_document {s : Settings} (hvalid : s.validate = .ok ())
    (h : s.highWaterMark < UInt64.size) : ofDocument s.document = .ok s := by
  rw [ofDocument, ofText?_document, Option.bind_some, ofEntries?_saved h]
  exact validated_eq_ok.mpr ⟨rfl, hvalid⟩

theorem ofDocument_eq_ok {text : String} {s : Settings} (h : ofDocument text = .ok s) :
    s.validate = .ok () ∧ s.highWaterMark < UInt64.size := by
  unfold ofDocument at h
  split at h
  · cases h
  · next t ht =>
    obtain ⟨rfl, hvalid⟩ := validated_eq_ok.mp h
    obtain ⟨es, -, hes⟩ := Option.bind_eq_some_iff.mp ht
    exact ⟨hvalid, ofEntries?_lt hes⟩

theorem ofFile_toUTF8 (text : String) : ofFile (some text.toUTF8) = ofDocument text := by
  have htext : String.fromUTF8? text.toUTF8 = some text := dif_pos text.isValidUTF8
  rw [ofFile, htext]

/-- Settings that are valid, with a limit that a machine word holds, can be saved wherever there is
a directory, and what was saved is read back as the same settings. Whatever a file holds, and
whether it is there or not, only such settings are read from it. -/
theorem saved_settings_restored :
    (∀ s : Settings, s.validate = .ok () → s.highWaterMark < UInt64.size →
      (∃ text, s.toFile true = .ok text) ∧
        ∀ directoryExists text, s.toFile directoryExists = .ok text →
          ofFile (some text.toUTF8) = .ok s) ∧
    ∀ content s, ofFile content = .ok s →
      s.validate = .ok () ∧ s.highWaterMark < UInt64.size := by
  refine ⟨fun s hvalid hlimit => ⟨⟨s.document, rfl⟩, fun directoryExists text htext => ?_⟩,
    fun content s h => ?_⟩
  · obtain rfl : s.document = text := by
      unfold toFile at htext
      split at htext
      · exact Except.ok.inj htext
      · cases htext
    rw [ofFile_toUTF8, ofDocument_document hvalid hlimit]
  · unfold ofFile at h
    split at h
    · cases h
    · split at h
      · cases h
      · exact ofDocument_eq_ok h

def greatest : Settings := ⟨.production, true, 0x7fffffffffffffff⟩

/-- The greatest limit comes back; a limit of zero can be written, but is not accepted. -/
theorem saved_settings_restored_greatest :
    ∃ text, greatest.validate = .ok () ∧ greatest.highWaterMark < UInt64.size ∧
      greatest.toFile true = .ok text ∧ ofFile (some text.toUTF8) = .ok greatest ∧
      ofFile (some (⟨.production, true, 0⟩ : Settings).document.toUTF8) ≠
        .ok ⟨.production, true, 0⟩ := by
  obtain ⟨hsaved, hloaded⟩ := saved_settings_restored
  have hvalid : greatest.validate = .ok () := (validate_ok_iff _).mpr (by decide)
  have hlimit : greatest.highWaterMark < UInt64.size := by decide
  obtain ⟨⟨text, htext⟩, hback⟩ := hsaved greatest hvalid hlimit
  refine ⟨text, hvalid, hlimit, htext, hback true text htext, fun h => ?_⟩
  exact absurd (hloaded _ _ h).1 (by decide)

end Settings
end TreeStream
