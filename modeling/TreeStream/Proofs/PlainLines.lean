import Mathlib.Data.List.Basic
import TreeStream.Toml.Reader

/-!
# Plain lines of a document

A line that says a key and a value, or that opens a table, is read for what it says, as long as its
key needs no quotes and its value is a word, a number or a string without escapes. Nothing is
assumed of the lines before it, so the reading of a document that has only such lines is put
together line by line (`lines?_assignment`, `lines?_header`, `lines?_empty_line`).
-/

namespace TreeStream
namespace Toml

/-! ## Skipping -/

/-- Reading stops at the first character that is not of the class. -/
theorem takeWhile_append_cons {p : Char → Bool} {cs : List Char} (hcs : ∀ c ∈ cs, p c = true)
    {d : Char} (hd : p d = false) (rest : List Char) :
    (cs ++ d :: rest).takeWhile p = cs ∧ (cs ++ d :: rest).dropWhile p = d :: rest := by
  rw [List.takeWhile_append_of_pos hcs, List.dropWhile_append_of_pos hcs]
  simp [hd]

theorem ne_of_class {p : Char → Bool} {c d : Char} (hc : p c = true) (hd : p d = false) :
    c ≠ d := by
  rintro rfl
  exact Bool.noConfusion (hc.symm.trans hd)

theorem skipBlanks_cons {c : Char} (h : isBlank c = false) (cs : List Char) :
    skipBlanks (c :: cs) = c :: cs := by
  simp [skipBlanks, h]

/-- A character that is skipped neither as a blank nor as a comment nor as a line end. -/
def isSolid (c : Char) : Bool := !(isBlank c || c == '#' || c == '\n' || c == '\r')

theorem isBlank_of_isSolid {c : Char} (h : isSolid c = true) : isBlank c = false := by
  simp_all [isSolid]

theorem skipLines_cons {c : Char} (h : isSolid c = true) (n : Nat) (cs : List Char) :
    skipLines n (c :: cs) = c :: cs := by
  cases n with
  | zero => rfl
  | succ n =>
    have hcomment : skipComment (c :: cs) = c :: cs := by
      unfold skipComment
      split
      · exact absurd h (by simp_all [isSolid])
      · rfl
    have hend : lineEnd? (c :: cs) = none := by
      unfold lineEnd?
      split <;> simp_all [isSolid]
    simp only [skipLines, skipBlanks_cons (isBlank_of_isSolid h), hcomment, hend]

/-! ## Keys and values -/

structure IsBare (key : String) : Prop where
  ne_nil : key.toList ≠ []
  all : ∀ c ∈ key.toList, isBareKey c = true

instance (key : String) : Decidable (IsBare key) :=
  decidable_of_iff (key.toList ≠ [] ∧ key.toList.all isBareKey = true)
    ⟨fun h => ⟨h.1, List.all_eq_true.mp h.2⟩, fun h => ⟨h.ne_nil, List.all_eq_true.mpr h.all⟩⟩

theorem IsBare.exists_cons {key : String} (h : IsBare key) :
    ∃ k ks, key.toList = k :: ks ∧ isBareKey k = true := by
  obtain ⟨k, ks, hks⟩ := List.exists_cons_of_ne_nil h.ne_nil
  exact ⟨k, ks, hks, h.all k (hks ▸ List.mem_cons_self)⟩

theorem isSolid_of_isBareKey {c : Char} (h : isBareKey c = true) : isSolid c = true := by
  have hne : ∀ d, isBareKey d = false → c ≠ d := fun d => ne_of_class h
  simp [isSolid, isBlank, hne ' ' (by decide), hne '\t' (by decide), hne '#' (by decide),
    hne '\n' (by decide), hne '\r' (by decide)]

theorem simpleKey?_bare {key : String} (hkey : IsBare key) {d : Char} (hd : isBareKey d = false)
    (n : Nat) (rest : List Char) :
    simpleKey? n (key.toList ++ d :: rest) = some (key, d :: rest) := by
  obtain ⟨htake, hdrop⟩ := takeWhile_append_cons hkey.all hd rest
  obtain ⟨k, ks, hks, hk⟩ := hkey.exists_cons
  rw [hks] at htake hdrop ⊢
  rw [simpleKey?, htake, hdrop, ← hks, String.ofList_toList]
  · simp [hkey.ne_nil]
  · exact fun _ h => ne_of_class hk (by decide) (List.cons.inj h).1
  · exact fun _ h => ne_of_class hk (by decide) (List.cons.inj h).1

/-- A bare key is a path of its own, as long as no point follows. -/
theorem keyPath?_bare {key : String} (hkey : IsBare key) {d : Char} (hd : isBareKey d = false)
    {n : Nat} {rest : List Char} {e : Char} {after : List Char}
    (hafter : skipBlanks (d :: rest) = e :: after) (he : e ≠ '.') :
    keyPath? (n + 1) (key.toList ++ d :: rest) = some ([key], e :: after) := by
  have hstart : skipBlanks (key.toList ++ d :: rest) = key.toList ++ d :: rest := by
    obtain ⟨k, ks, hks, hk⟩ := hkey.exists_cons
    rw [hks]
    exact skipBlanks_cons (isBlank_of_isSolid (isSolid_of_isBareKey hk)) _
  have hpath : dottedKey? (n + 1) (key.toList ++ d :: rest) = some ([key], e :: after) := by
    simp only [dottedKey?, hstart, simpleKey?_bare hkey hd, Option.bind_some, hafter]
    split
    · next h => exact absurd (List.cons.inj h).1 he
    · rfl
  rw [keyPath?, hpath]
  rfl

def isPlain (c : Char) : Bool := isText c && c != '"' && c != '\\'

theorem basicString_plain {cs : List Char} (hcs : ∀ c ∈ cs, isPlain c = true) {n : Nat}
    (hn : cs.length < n) (done rest : List Char) :
    basicString n done (cs ++ '"' :: rest) = some (String.ofList (done.reverse ++ cs), rest) := by
  induction cs generalizing n done with
  | nil =>
    obtain ⟨n, rfl⟩ := Nat.exists_eq_succ_of_ne_zero (Nat.ne_zero_of_lt hn)
    simp [basicString]
  | cons c cs ih =>
    obtain ⟨n, rfl⟩ := Nat.exists_eq_succ_of_ne_zero (Nat.ne_zero_of_lt hn)
    have hc := hcs c List.mem_cons_self
    simp only [isPlain, Bool.and_eq_true, bne_iff_ne] at hc
    obtain ⟨⟨htext, hquote⟩, hslash⟩ := hc
    have hrest := ih (fun d hd => hcs d (List.mem_cons_of_mem c hd)) (Nat.lt_of_succ_lt_succ hn)
      (c :: done)
    rw [List.cons_append, basicString, if_pos htext, hrest]
    · simp
    · exact hquote
    · exact hslash

theorem value?_string {cs : List Char} (hne : cs ≠ []) (hcs : ∀ c ∈ cs, isPlain c = true)
    {n : Nat} (hn : cs.length < n) (depth : Nat) (rest : List Char) :
    value? (n + 1) depth ('"' :: (cs ++ '"' :: rest)) =
      some (.string (String.ofList cs), rest) := by
  obtain ⟨c, cs, rfl⟩ := List.exists_cons_of_ne_nil hne
  have hquote : c ≠ '"' := ne_of_class (hcs c List.mem_cons_self) (by decide)
  have hstring : string? n ('"' :: (c :: cs ++ '"' :: rest)) =
      some (String.ofList (c :: cs), rest) := by
    rw [string?]
    · exact basicString_plain hcs hn [] rest
    · exact fun _ h => hquote (List.cons.inj h).1
  rw [value?, hstring]
  rfl

theorem value?_word {cs : List Char} (hne : cs ≠ []) (hcs : ∀ c ∈ cs, isWordChar c = true)
    (n depth : Nat) (rest : List Char) :
    value? (n + 1) depth (cs ++ '\n' :: rest) = (word? cs).map fun v => (v, '\n' :: rest) := by
  have hword : takeWord (cs ++ '\n' :: rest) = (cs, '\n' :: rest) := by
    obtain ⟨htake, hdrop⟩ := takeWhile_append_cons (d := '\n') hcs (by decide) rest
    rw [takeWord, htake, hdrop]
    rfl
  obtain ⟨c, cs, rfl⟩ := List.exists_cons_of_ne_nil hne
  have hc := hcs c List.mem_cons_self
  rw [value?, hword] <;> exact fun _ h => ne_of_class hc (by decide) (List.cons.inj h).1

/-! ## Integers -/

theorem digitGroups?_digits {cs : List Char} (hne : cs ≠ []) (hcs : ∀ c ∈ cs, c.isDigit = true) :
    digitGroups? Char.isDigit cs = some cs := by
  fun_induction digitGroups? Char.isDigit cs with
  | case1 => exact absurd rfl hne
  | case2 c hc => rfl
  | case3 c hc => exact absurd (hcs c List.mem_cons_self) hc
  | case4 c rest hc ih => exact absurd (hcs '_' (by simp)) (by decide)
  | case5 c rest hc => exact absurd (hcs '_' (by simp)) (by decide)
  | case6 c d rest _ hc ih =>
    rw [ih (List.cons_ne_nil d rest) fun e he => hcs e (List.mem_cons_of_mem c he)]
    rfl
  | case7 c d rest _ hc => exact absurd (hcs c List.mem_cons_self) hc

theorem eq_zero_of_head?_toDigits {n : Nat} (h : (Nat.toDigits 10 n).head? = some '0') :
    n = 0 := by
  induction n using Nat.strongRecOn with
  | ind n ih =>
    rcases Nat.lt_or_ge n 10 with hn | hn
    · have hsmall : ∀ n < 10, n.digitChar = '0' → n = 0 := by decide
      rw [Nat.toDigits_of_lt_base hn] at h
      exact hsmall n hn (Option.some.inj h)
    · rw [Nat.toDigits_of_base_le (by decide) hn,
        List.head?_append_of_ne_nil _ Nat.toDigits_ne_nil] at h
      have hzero := ih (n / 10) (by omega) h
      omega

theorem expect?_digits {c : Char} (hc : c.isDigit = false) {cs : List Char}
    (hcs : ∀ d ∈ cs, d.isDigit = true) : expect? c cs = none := by
  cases cs with
  | nil => rfl
  | cons d cs =>
    rw [expect?, if_neg]
    rintro rfl
    exact Bool.noConfusion (hc.symm.trans (hcs c List.mem_cons_self))

theorem isDatetime_digits {cs : List Char} (hcs : ∀ c ∈ cs, c.isDigit = true) :
    isDatetime cs = false := by
  have hrest : ∀ {n : Nat} {rest : List Char}, twoDigits? cs = some (n, rest) →
      ∀ c ∈ rest, c.isDigit = true := by
    intro n rest h
    unfold twoDigits? at h
    split at h
    · next a b cs =>
      split at h
      · obtain rfl := (Prod.mk.inj (Option.some.inj h)).2
        exact fun c hc => hcs c (by simp [hc])
      · cases h
    · cases h
  have hdate : date? cs = none := by
    unfold date?
    simp [expect?_digits (c := '-') rfl fun c hc => hcs c (List.mem_of_mem_drop hc)]
  have htime : time? cs = none := by
    unfold time?
    cases htwo : twoDigits? cs with
    | none => rfl
    | some p =>
      obtain ⟨n, rest⟩ := p
      simp [expect?_digits (c := ':') rfl (hrest htwo)]
  simp [isDatetime, hdate, htime]

/-- The decimal digits of a number are read as that number. -/
theorem word?_toDigits (n : Nat) : word? (Nat.toDigits 10 n) = some (.integer n) := by
  have hdigits : ∀ c ∈ Nat.toDigits 10 n, c.isDigit = true :=
    fun c hc => Nat.isDigit_of_mem_toDigits (by decide) (by decide) hc
  have hne : ∀ {w : List Char} {c : Char}, c ∈ w → c.isDigit = false → Nat.toDigits 10 n ≠ w := by
    rintro w c hc hdigit rfl
    exact Bool.noConfusion (hdigit.symm.trans (hdigits c hc))
  have hdecimal : decimalDigits? (Nat.toDigits 10 n) = some (Nat.toDigits 10 n) := by
    rw [decimalDigits?, digitGroups?_digits Nat.toDigits_ne_nil hdigits, Option.bind_some, if_neg]
    intro h
    simp only [Bool.and_eq_true, beq_iff_eq, decide_eq_true_eq] at h
    obtain rfl := eq_zero_of_head?_toDigits h.1
    exact absurd h.2 (by decide)
  have hunsigned : unsigned? false (Nat.toDigits 10 n) = some (.integer n) := by
    have hvalue : Double.digitsValue (Nat.toDigits 10 n) = n := Nat.ofDigitChars_ten_toDigits
    rw [unsigned?, if_neg, hdecimal]
    · simp [hvalue]
    · rintro (h | h)
      · exact hne (c := 'i') (by simp) (by decide) h
      · exact hne (c := 'a') (by simp) (by decide) h
  rw [word?, if_neg (hne (c := 't') (by simp) (by decide)),
    if_neg (hne (c := 'f') (by simp) (by decide)), isDatetime_digits hdigits, if_neg (by decide)]
  · exact hunsigned
  · exact fun ds => hne (c := 'x') (by simp) (by decide)
  · exact fun ds => hne (c := 'o') (by simp) (by decide)
  · exact fun ds => hne (c := 'b') (by simp) (by decide)
  · exact fun ds => hne (c := '+') (by simp) (by decide)
  · exact fun ds => hne (c := '-') (by simp) (by decide)

/-! ## Lines -/

/-- A bare key with a value after an equals sign between two blanks. -/
theorem line?_assignment {key : String} (hkey : IsBare key) {n : Nat} {cs rest : List Char}
    (hcs : skipBlanks cs = cs) {v : Value}
    (hv : value? (n + 1) depthLimit cs = some (v, rest)) {p : Progress} {es : Entries}
    (hput : putUnder p.header [] key v p.entries = some es) :
    line? (n + 1) p (key.toList ++ ' ' :: '=' :: ' ' :: cs) =
      some ({ p with entries := es }, rest) := by
  have hpath : keyPath? (n + 1) (key.toList ++ ' ' :: '=' :: ' ' :: cs) =
      some ([key], '=' :: ' ' :: cs) :=
    keyPath?_bare hkey (by decide) rfl (by decide)
  have hequals : skipBlanks ('=' :: ' ' :: cs) = '=' :: ' ' :: cs := rfl
  have hskip : skipBlanks (' ' :: cs) = cs := hcs
  obtain ⟨k, ks, hks, hk⟩ := hkey.exists_cons
  rw [hks] at hpath ⊢
  rw [line?, hpath]
  · simp only [Option.bind_eq_bind, Option.bind_some, splitLast?, hequals, expect?, if_true, hskip,
      hv, hput]
  · exact fun _ h => ne_of_class hk (by decide) (List.cons.inj h).1
  · exact fun _ h => ne_of_class hk (by decide) (List.cons.inj h).1

theorem line?_header {key : String} (hkey : IsBare key) (n : Nat) (rest : List Char)
    {p : Progress} {es : Entries} (hopen : openTable [] key p.entries = some es) :
    line? (n + 1) p ('[' :: (key.toList ++ ']' :: rest)) =
      some ({ header := [key], entries := es }, rest) := by
  have hpath : keyPath? (n + 1) (key.toList ++ ']' :: rest) = some ([key], ']' :: rest) :=
    keyPath?_bare hkey (by decide) rfl (by decide)
  have hheader : header? (n + 1) [']'] (key.toList ++ ']' :: rest) = some ([key], rest) := by
    rw [header?, hpath]
    rfl
  obtain ⟨k, ks, hks, hk⟩ := hkey.exists_cons
  rw [hks] at hheader ⊢
  rw [line?, hheader]
  · simp only [Option.bind_eq_bind, Option.bind_some, splitLast?, hopen]
  · exact fun _ h => ne_of_class hk (by decide) (List.cons.inj h).1

/-- After a line that was read, reading goes on behind its end. -/
theorem lines?_line {n f : Nat} {p q : Progress} {c : Char} {cs rest : List Char}
    (hc : isSolid c = true) (h : line? n p (c :: cs) = some (q, '\n' :: rest)) :
    lines? n (f + 1) p (c :: cs) = lines? n f q rest := by
  simp only [lines?, skipLines_cons hc, h, Option.bind_some]
  rfl

theorem lines?_assignment {key : String} (hkey : IsBare key) {n f : Nat} {cs rest : List Char}
    (hcs : skipBlanks cs = cs) {v : Value}
    (hv : value? (n + 1) depthLimit cs = some (v, '\n' :: rest)) {p : Progress} {es : Entries}
    (hput : putUnder p.header [] key v p.entries = some es) :
    lines? (n + 1) (f + 1) p (key.toList ++ ' ' :: '=' :: ' ' :: cs) =
      lines? (n + 1) f { p with entries := es } rest := by
  have hline := line?_assignment hkey hcs hv hput
  obtain ⟨k, ks, hks, hk⟩ := hkey.exists_cons
  rw [hks] at hline ⊢
  exact lines?_line (isSolid_of_isBareKey hk) hline

theorem lines?_header {key : String} (hkey : IsBare key) {n f : Nat} {rest : List Char}
    {p : Progress} {es : Entries} (hopen : openTable [] key p.entries = some es) :
    lines? (n + 1) (f + 1) p ('[' :: (key.toList ++ ']' :: '\n' :: rest)) =
      lines? (n + 1) f { header := [key], entries := es } rest :=
  lines?_line (by decide) (line?_header hkey n ('\n' :: rest) hopen)

theorem lines?_empty_line {n f : Nat} (p : Progress) {c : Char} (hc : isSolid c = true)
    (cs : List Char) :
    lines? (n + 1) (f + 1) p ('\n' :: c :: cs) = lines? (n + 1) (f + 1) p (c :: cs) := by
  have hskip : skipLines (n + 1) ('\n' :: c :: cs) = c :: cs := skipLines_cons hc n cs
  simp only [lines?, hskip, skipLines_cons hc]

theorem lines?_nil (n f : Nat) (p : Progress) : lines? (n + 1) (f + 1) p [] = some p := rfl

end Toml
end TreeStream
