import TreeStream.Json.Printer
import TreeStream.Json.Reader
import TreeStream.Row.Token

/-!
# Rows as trees

The body of a row is read into a tree whose leaves are the tokens that its strings stand for. Words
outside strings are kept as they are, so reading needs no arithmetic and no bound on the depth, and
what a row refers to can be listed in the order of its text, and replaced. Reading the text of a JSON
value gives back the tree of the value.
-/

namespace TreeStream

/-- A row as it is read: a word is null, a Boolean or a number. -/
inductive RowTree where
  | word (chars : List Char)
  | token (token : RowToken)
  | array (items : List RowTree)
  | object (fields : List (String × RowTree))

namespace RowTree

/-! ## Lexemes -/

/-- A punctuation mark, a string without its quotes, or a run of other characters. -/
inductive Lexeme where
  | mark (c : Char)
  | string (text : String)
  | word (chars : List Char)

def isMark (c : Char) : Bool := (Json.punctuation? c).isSome

def startLexeme (c : Char) : List Lexeme × Json.ScanState :=
  if c = '"' then ([], .quoted .plain [])
  else if isMark c then ([.mark c], .between)
  else ([], .word [c])

/-- One character: the lexemes that it completes, and where the scanner stands then. -/
def scan (state : Json.ScanState) (c : Char) : Option (List Lexeme × Json.ScanState) :=
  match state with
  | .between => some (startLexeme c)
  | .word w =>
    if c = '"' || isMark c then
      some (.word w.reverse :: (startLexeme c).1, (startLexeme c).2)
    else some ([], .word (c :: w))
  | .quoted .plain text =>
    if c = '"' then some ([.string (String.ofList text.reverse)], .between)
    else (Json.stringStep .plain text c).map fun s => ([], .quoted s.1 s.2)
  | .quoted s text => (Json.stringStep s text c).map fun s => ([], .quoted s.1 s.2)

def lexemes? (state : Json.ScanState) : List Char → Option (List Lexeme)
  | [] =>
    match state with
    | .between => some []
    | .word w => some [.word w.reverse]
    | .quoted _ _ => none
  | c :: cs => (scan state c).bind fun p => (lexemes? p.2 cs).map (p.1 ++ ·)

/-! ## Trees -/

/-- A container that waits for what is being read; what it holds already is reversed. -/
inductive Frame where
  | items (reversed : List RowTree)
  | field (reversed : List (String × RowTree)) (key : String)

inductive State where
  | value (stack : List Frame)
  | key (reversed : List (String × RowTree)) (stack : List Frame)
  | colon (reversed : List (String × RowTree)) (key : String) (stack : List Frame)
  | finished (tree : RowTree) (stack : List Frame)

def step : State → Lexeme → Option State
  | .value stack, .word cs => some (.finished (word cs) stack)
  | .value stack, .string s => some (.finished (token (RowToken.parse s)) stack)
  | .value stack, .mark '[' => some (.value (.items [] :: stack))
  | .value (.items [] :: stack), .mark ']' => some (.finished (array []) stack)
  | .value stack, .mark '{' => some (.key [] stack)
  | .key done stack, .string k => some (.colon done k stack)
  | .key [] stack, .mark '}' => some (.finished (object []) stack)
  | .colon done k stack, .mark ':' => some (.value (.field done k :: stack))
  | .finished t (.items done :: stack), .mark ',' => some (.value (.items (t :: done) :: stack))
  | .finished t (.items done :: stack), .mark ']' =>
    some (.finished (array (t :: done).reverse) stack)
  | .finished t (.field done k :: stack), .mark ',' => some (.key ((k, t) :: done) stack)
  | .finished t (.field done k :: stack), .mark '}' =>
    some (.finished (object ((k, t) :: done).reverse) stack)
  | _, _ => none

def run (state : State) (cs : List Char) : Option State :=
  (lexemes? .between cs).bind fun ls => ls.foldlM step state

/-- The tree of a text. -/
def read? (text : String) : Option RowTree :=
  (run (.value []) text.toList).bind fun state =>
    match state with
    | .finished t [] => some t
    | _ => none

mutual

/-- The rows that a tree refers to, in the order of the text. -/
def references : RowTree → List RowId
  | word _ => []
  | token (.reference id) => [id]
  | token _ => []
  | array items => itemReferences items
  | object fields => fieldReferences fields

def itemReferences : List RowTree → List RowId
  | [] => []
  | t :: ts => references t ++ itemReferences ts

def fieldReferences : List (String × RowTree) → List RowId
  | [] => []
  | (_, t) :: fs => references t ++ fieldReferences fs

end

mutual

def ofJson : Json → RowTree
  | .null => word ['n', 'u', 'l', 'l']
  | .bool true => word ['t', 'r', 'u', 'e']
  | .bool false => word ['f', 'a', 'l', 's', 'e']
  | .number n => word (Json.numberChars n)
  | .string s => token (RowToken.parse s)
  | .array items => array (itemsOfJson items)
  | .object fields => object (fieldsOfJson fields)

def itemsOfJson : List Json → List RowTree
  | [] => []
  | j :: js => ofJson j :: itemsOfJson js

def fieldsOfJson : List (String × Json) → List (String × RowTree)
  | [] => []
  | (k, j) :: fs => (k, ofJson j) :: fieldsOfJson fs

end

/-! ## Reading strings and words -/

theorem lexemes?_cons (state : Json.ScanState) (c : Char) (cs : List Char) :
    lexemes? state (c :: cs) = (scan state c).bind fun p => (lexemes? p.2 cs).map (p.1 ++ ·) :=
  rfl

theorem lexemes?_silent {state state' : Json.ScanState} {c : Char}
    (h : scan state c = some ([], state')) (cs : List Char) :
    lexemes? state (c :: cs) = lexemes? state' cs := by
  simp [lexemes?_cons, h]

theorem scan_of_stringStep {s s' : Json.StringState} {text text' : List Char} {c : Char}
    (hc : s = .plain → c ≠ '"') (h : Json.stringStep s text c = some (s', text')) :
    scan (.quoted s text) c = some ([], .quoted s' text') := by
  cases s with
  | plain => simp [scan, hc rfl, h]
  | _ => simp [scan, h]

theorem lexemes?_hex {c : Char} {d seen value : Nat} (hd : Text.hexDigit? c = some d)
    (hs : seen ≠ 3) (text cs : List Char) :
    lexemes? (.quoted (.hex none seen value) text) (c :: cs) =
      lexemes? (.quoted (.hex none (seen + 1) (16 * value + d)) text) cs := by
  refine lexemes?_silent (scan_of_stringStep (fun h => by cases h) ?_) cs
  simp [Json.stringStep, hd, hs]

theorem lexemes?_lastHex {c : Char} {d value : Nat} (hd : Text.hexDigit? c = some d)
    (hlow : 16 * value + d < 0x20) (text cs : List Char) :
    lexemes? (.quoted (.hex none 3 value) text) (c :: cs) =
      lexemes? (.quoted .plain (Char.ofNat (16 * value + d) :: text)) cs := by
  refine lexemes?_silent (scan_of_stringStep (fun h => by cases h) ?_) cs
  have hlead : ¬ 0xd800 ≤ 16 * value + d := by omega
  have htrail : ¬ 0xdc00 ≤ 16 * value + d := by omega
  simp [Json.stringStep, Json.finishHex, hd, hlead, htrail]

theorem lexemes?_control {c : Char} (hc : c.toNat < 0x20) (text cs : List Char) :
    lexemes? (.quoted .escape text)
        ('u' :: '0' :: '0' :: Nat.digitChar (c.toNat / 16) :: Nat.digitChar (c.toNat % 16) :: cs) =
      lexemes? (.quoted .plain (c :: text)) cs := by
  have hhigh := Text.hexDigit?_digitChar (c.toNat / 16) (by omega)
  have hlow := Text.hexDigit?_digitChar (c.toNat % 16) (by omega)
  have hzero : Text.hexDigit? '0' = some 0 := by decide
  have hvalue : 16 * (16 * (16 * (16 * 0 + 0) + 0) + c.toNat / 16) + c.toNat % 16 = c.toNat := by
    omega
  rw [lexemes?_silent (scan_of_stringStep (fun h => by cases h) rfl),
    lexemes?_hex hzero (by decide), lexemes?_hex hzero (by decide), lexemes?_hex hhigh (by decide),
    lexemes?_lastHex hlow (by omega), hvalue, Char.ofNat_toNat]

theorem lexemes?_quotedChar (c : Char) (text cs : List Char) :
    lexemes? (.quoted .plain text) (Json.quotedChar c ++ cs) =
      lexemes? (.quoted .plain (c :: text)) cs := by
  have hback : ∀ cs', lexemes? (.quoted .plain text) ('\\' :: cs') =
      lexemes? (.quoted .escape text) cs' :=
    lexemes?_silent (scan_of_stringStep (fun _ => by decide) rfl)
  unfold Json.quotedChar
  split
  · rename_i e he
    have hunescape := Json.unescapeShort?_of_shortEscape? he
    have hu : e ≠ 'u' := by
      rintro rfl
      simp [Json.unescapeShort?] at hunescape
    rw [List.cons_append, List.cons_append, List.nil_append, hback]
    refine lexemes?_silent (scan_of_stringStep (fun h => by cases h) ?_) cs
    simp [Json.stringStep, hu, hunescape]
  · rename_i hshort
    have hquote : c ≠ '"' := by
      rintro rfl
      simp [Json.shortEscape?] at hshort
    have hslash : c ≠ '\\' := by
      rintro rfl
      simp [Json.shortEscape?] at hshort
    split
    · rename_i hlow
      simp only [List.cons_append, List.nil_append]
      rw [hback, lexemes?_control hlow]
    · rename_i hhigh
      refine lexemes?_silent (scan_of_stringStep (fun _ => hquote) ?_) cs
      simp [Json.stringStep, hslash, hhigh]

theorem lexemes?_flatMap (s text cs : List Char) :
    lexemes? (.quoted .plain text) (s.flatMap Json.quotedChar ++ '"' :: cs) =
      (lexemes? .between cs).map (.string (String.ofList (text.reverse ++ s)) :: ·) := by
  induction s generalizing text with
  | nil => simp [lexemes?_cons, scan]
  | cons c s ih => rw [List.flatMap_cons, List.append_assoc, lexemes?_quotedChar, ih]; simp

theorem lexemes?_quoted (s : String) (cs : List Char) :
    lexemes? .between (Json.quotedChars s.toList ++ cs) =
      (lexemes? .between cs).map (.string s :: ·) := by
  have hopen : lexemes? .between (Json.quotedChars s.toList ++ cs) =
      lexemes? (.quoted .plain []) (s.toList.flatMap Json.quotedChar ++ '"' :: cs) := by
    rw [Json.quotedChars, List.cons_append, List.cons_append, lexemes?_silent rfl]
    simp
  rw [hopen, lexemes?_flatMap]
  simp

/-- A text that cannot go on with a word. -/
def Delimited (cs : List Char) : Prop := ∀ c cs', cs = c :: cs' → isMark c = true

def wordSigns : List Char := ['-', '+', '.', 'a', 'e', 'f', 'l', 'n', 'r', 's', 't', 'u']

def IsWordChar (c : Char) : Prop := c.isDigit = true ∨ c ∈ wordSigns

instance : DecidablePred IsWordChar := fun _ => inferInstanceAs (Decidable (_ ∨ _))

theorem IsWordChar.ne_of_not {c d : Char} (h : IsWordChar c) (hd : ¬ IsWordChar d) : c ≠ d := by
  rintro rfl
  exact hd h

theorem IsWordChar.plain {c : Char} (h : IsWordChar c) : c ≠ '"' ∧ isMark c = false := by
  refine ⟨h.ne_of_not (by decide), Bool.eq_false_iff.mpr fun hm => ?_⟩
  simp only [isMark, Json.punctuation?] at hm
  iterate 6
    split at hm
    · rename_i hc
      exact h.ne_of_not (by decide) hc
  cases hm

theorem lexemes?_wordEnd (w : List Char) {cs : List Char} (h : Delimited cs) :
    lexemes? (.word w) cs = (lexemes? .between cs).map (.word w.reverse :: ·) := by
  cases cs with
  | nil => rfl
  | cons c cs =>
    have hc := h c cs rfl
    simp only [lexemes?_cons, scan, hc, Bool.or_true, if_true, Option.bind_some]
    cases lexemes? (startLexeme c).2 cs <;> rfl

theorem lexemes?_wordChars (w w' : List Char) {cs : List Char} (hw : ∀ c ∈ w, IsWordChar c)
    (h : Delimited cs) :
    lexemes? (.word w') (w ++ cs) =
      (lexemes? .between cs).map (.word (w'.reverse ++ w) :: ·) := by
  induction w generalizing w' with
  | nil => rw [List.nil_append, List.append_nil, lexemes?_wordEnd w' h]
  | cons c w ih =>
    obtain ⟨hquote, hmark⟩ := (hw c List.mem_cons_self).plain
    have hscan : scan (.word w') c = some ([], .word (c :: w')) := by simp [scan, hquote, hmark]
    rw [List.cons_append, lexemes?_silent hscan, ih (c :: w') fun d hd =>
      hw d (List.mem_cons_of_mem c hd)]
    simp

theorem lexemes?_word {w : List Char} (hne : w ≠ []) (hw : ∀ c ∈ w, IsWordChar c)
    {cs : List Char} (h : Delimited cs) :
    lexemes? .between (w ++ cs) = (lexemes? .between cs).map (.word w :: ·) := by
  cases w with
  | nil => exact absurd rfl hne
  | cons c w =>
    obtain ⟨hquote, hmark⟩ := (hw c List.mem_cons_self).plain
    have hscan : scan .between c = some ([], .word [c]) := by
      simp [scan, startLexeme, hquote, hmark]
    rw [List.cons_append, lexemes?_silent hscan, lexemes?_wordChars w [c]
      (fun d hd => hw d (List.mem_cons_of_mem c hd)) h]
    rfl

theorem lexemes?_mark {c : Char} (h : isMark c = true) (cs : List Char) :
    lexemes? .between (c :: cs) = (lexemes? .between cs).map (.mark c :: ·) := by
  have hquote : c ≠ '"' := by
    rintro rfl
    exact absurd h (by decide)
  simp [lexemes?_cons, scan, startLexeme, hquote, h]

/-! ## The words of a value -/

def IsWord (w : List Char) : Prop := w ≠ [] ∧ ∀ c ∈ w, IsWordChar c

theorem isWordChar_of_all {w : List Char} (h : w.all (fun c => decide (IsWordChar c)) = true) :
    ∀ c ∈ w, IsWordChar c :=
  fun c hc => of_decide_eq_true (List.all_eq_true.mp h c hc)

theorem IsWord.append {w w' : List Char} (h : IsWord w) (h' : ∀ c ∈ w', IsWordChar c) :
    IsWord (w ++ w') :=
  ⟨by simp [h.1], fun c hc => (List.mem_append.mp hc).elim (h.2 c) (h' c)⟩

theorem IsWord.sign {w : List Char} (h : IsWord w) (negative : Bool) :
    IsWord ((if negative then ['-'] else []) ++ w) := by
  cases negative with
  | true => exact IsWord.append ⟨by simp, isWordChar_of_all (by decide)⟩ h.2
  | false => exact h

theorem isWord_digits (n : Nat) : IsWord (Nat.toDigits 10 n) :=
  ⟨Nat.toDigits_ne_nil, fun _ hc =>
    .inl (Nat.isDigit_of_mem_toDigits (by decide) (by decide) hc)⟩

theorem isWordChar_zeros (n : Nat) : ∀ c ∈ List.replicate n '0', IsWordChar c := by
  intro c hc
  rw [List.eq_of_mem_replicate hc]
  decide

theorem isWord_positional (keepsFraction : Bool) {digits : List Char} (h : IsWord digits)
    (point : Int) : IsWord (Double.positional keepsFraction digits point) := by
  unfold Double.positional
  simp only
  split
  · have hstart : IsWord ['0', '.'] := ⟨by simp, isWordChar_of_all (by decide)⟩
    exact (hstart.append (isWordChar_zeros _)).append h.2
  · split
    · refine (h.append (isWordChar_zeros _)).append ?_
      cases keepsFraction <;> exact isWordChar_of_all (by decide)
    · rename_i hlong
      refine ⟨by simp, fun c hc => ?_⟩
      rcases List.mem_append.mp hc with hc | hc
      · exact h.2 c (List.mem_of_mem_take hc)
      · rcases List.mem_cons.mp hc with rfl | hc
        · decide
        · exact h.2 c (List.mem_of_mem_drop hc)

theorem isWord_scientific (plusSign : Bool) {digits : List Char} (h : IsWord digits)
    (exponent : Int) : IsWord (Double.scientific plusSign digits exponent) := by
  have hfirst : IsWord (digits.take 1) :=
    ⟨by simp [h.1], fun c hc => h.2 c (List.mem_of_mem_take hc)⟩
  unfold Double.scientific
  refine ((hfirst.append ?_).append ?_).append (isWord_digits _).2
  · split
    · exact fun c hc => nomatch hc
    · intro c hc
      rcases List.mem_cons.mp hc with rfl | hc
      · decide
      · exact h.2 c (List.mem_of_mem_drop hc)
  · split
    · exact isWordChar_of_all (by decide)
    · cases plusSign <;> exact isWordChar_of_all (by decide)

theorem isWord_magnitude (layout : Double.Layout) (x : Double) : IsWord (layout.magnitude x) := by
  unfold Double.Layout.magnitude
  simp only
  generalize (if x.units = 0 then _ else _) = d
  split
  · exact isWord_positional _ (isWord_digits _) _
  · exact isWord_scientific _ (isWord_digits _) _

theorem isWord_numberChars (n : JsonNumber) : IsWord (Json.numberChars n) := by
  cases n with
  | int i =>
    have := (isWord_digits i.natAbs).sign (decide (i < 0))
    simpa [Json.numberChars, Json.intChars] using this
  | float d =>
    cases d with
    | nan => exact ⟨by simp [Json.numberChars, Double.isFinite], isWordChar_of_all (by decide)⟩
    | infinite negative => cases negative <;> exact ⟨by decide, isWordChar_of_all (by decide)⟩
    | finite negative m e => exact (isWord_magnitude _ _).sign negative

/-! ## Reading values -/

theorem run_of_lexemes? {state : State} {l : Lexeme} {cs cs' : List Char}
    (h : lexemes? .between cs = (lexemes? .between cs').map (l :: ·)) :
    run state cs = (step state l).bind fun next => run next cs' := by
  unfold run
  rw [h]
  cases lexemes? .between cs' with
  | none => simp
  | some ls => simp [List.foldlM_cons]

theorem run_word (stack : List Frame) {w cs : List Char} (hw : IsWord w) (h : Delimited cs) :
    run (.value stack) (w ++ cs) = run (.finished (word w) stack) cs :=
  run_of_lexemes? (lexemes?_word hw.1 hw.2 h)

theorem run_quoted {state next : State} {s : String} (h : step state (.string s) = some next)
    (cs : List Char) : run state (Json.quotedChars s.toList ++ cs) = run next cs := by
  rw [run_of_lexemes? (lexemes?_quoted s cs), h, Option.bind_some]

theorem run_mark {state next : State} {c : Char} (hc : isMark c = true)
    (h : step state (.mark c) = some next) (cs : List Char) :
    run state (c :: cs) = run next cs := by
  rw [run_of_lexemes? (lexemes?_mark hc cs), h, Option.bind_some]

theorem delimited_cons {c : Char} (h : isMark c = true) (cs : List Char) : Delimited (c :: cs) := by
  intro d cs' he
  cases he
  exact h

mutual

/-- The text of a value is read to its end, and the tree of the value is found. -/
theorem run_chars (j : Json) (stack : List Frame) {cs : List Char} (h : Delimited cs) :
    run (.value stack) (Json.chars j ++ cs) = run (.finished (ofJson j) stack) cs := by
  match j with
  | .null =>
    exact run_word stack (w := ['n', 'u', 'l', 'l']) ⟨by simp, isWordChar_of_all (by decide)⟩ h
  | .bool true =>
    exact run_word stack (w := ['t', 'r', 'u', 'e']) ⟨by simp, isWordChar_of_all (by decide)⟩ h
  | .bool false =>
    exact run_word stack (w := ['f', 'a', 'l', 's', 'e']) ⟨by simp, isWordChar_of_all (by decide)⟩ h
  | .number n => exact run_word stack (isWord_numberChars n) h
  | .string s => exact run_quoted rfl cs
  | .array [] =>
    rw [Json.chars, List.cons_append, run_mark (by decide) rfl]
    exact run_mark (by decide) rfl cs
  | .array (x :: xs) =>
    rw [Json.chars, List.cons_append, run_mark (by decide) rfl]
    exact run_items (x :: xs) (List.cons_ne_nil x xs) [] stack cs
  | .object [] =>
    rw [Json.chars, List.cons_append, run_mark (by decide) rfl]
    exact run_mark (by decide) rfl cs
  | .object ((k, x) :: fs) =>
    rw [Json.chars, List.cons_append, run_mark (by decide) rfl]
    exact run_fields ((k, x) :: fs) (List.cons_ne_nil _ fs) [] stack cs

theorem run_items (xs : List Json) (hne : xs ≠ []) (done : List RowTree) (stack : List Frame)
    (cs : List Char) :
    run (.value (.items done :: stack)) (Json.itemsChars xs ++ cs) =
      run (.finished (array (done.reverse ++ itemsOfJson xs)) stack) cs := by
  match xs with
  | [] => exact absurd rfl hne
  | [x] =>
    rw [Json.itemsChars, List.append_assoc, List.singleton_append,
      run_chars x _ (delimited_cons (c := ']') (by decide) cs), run_mark (by decide) rfl]
    simp [itemsOfJson]
  | x :: y :: ys =>
    rw [Json.itemsChars, List.append_assoc, List.cons_append,
      run_chars x _ (delimited_cons (c := ',') (by decide) _), run_mark (by decide) rfl,
      run_items (y :: ys) (List.cons_ne_nil y ys)]
    simp [itemsOfJson]

theorem run_fields (fs : List (String × Json)) (hne : fs ≠ [])
    (done : List (String × RowTree)) (stack : List Frame) (cs : List Char) :
    run (.key done stack) (Json.fieldsChars fs ++ cs) =
      run (.finished (object (done.reverse ++ fieldsOfJson fs)) stack) cs := by
  match fs with
  | [] => exact absurd rfl hne
  | [(k, x)] =>
    rw [Json.fieldsChars, List.append_assoc, List.append_assoc, run_quoted rfl, List.cons_append,
      run_mark (by decide) rfl, List.singleton_append,
      run_chars x _ (delimited_cons (c := '}') (by decide) cs), run_mark (by decide) rfl]
    simp [fieldsOfJson]
  | (k, x) :: y :: fs =>
    rw [Json.fieldsChars, List.append_assoc, List.append_assoc, run_quoted rfl, List.cons_append,
      run_mark (by decide) rfl, List.cons_append,
      run_chars x _ (delimited_cons (c := ',') (by decide) _), run_mark (by decide) rfl,
      run_fields (y :: fs) (List.cons_ne_nil y fs)]
    simp [fieldsOfJson]

end

theorem read?_text (j : Json) : read? j.text = some (ofJson j) := by
  have hnil : Delimited [] := fun c cs he => nomatch he
  have hrun := run_chars j [] hnil
  rw [List.append_nil] at hrun
  rw [read?, Json.text, String.toList_ofList, hrun]
  rfl

/-! ## Replacing references -/

section

variable {f f' : RowId → Option RowTree}

mutual

/-- The tree with each reference replaced, if all can be. -/
def fill? (f : RowId → Option RowTree) : RowTree → Option RowTree
  | word cs => some (word cs)
  | token (.reference id) => f id
  | token t => some (token t)
  | array items => (fillItems? f items).map array
  | object fields => (fillFields? f fields).map object

def fillItems? (f : RowId → Option RowTree) : List RowTree → Option (List RowTree)
  | [] => some []
  | t :: ts => (fill? f t).bind fun t' => (fillItems? f ts).map (t' :: ·)

def fillFields? (f : RowId → Option RowTree) :
    List (String × RowTree) → Option (List (String × RowTree))
  | [] => some []
  | (k, t) :: fs => (fill? f t).bind fun t' => (fillFields? f fs).map ((k, t') :: ·)

end

mutual

theorem fill?_congr (t : RowTree) (h : ∀ id ∈ t.references, f id = f' id) :
    t.fill? f = t.fill? f' := by
  match t with
  | word cs => rfl
  | token (.reference id) => exact h id List.mem_cons_self
  | token (.literal s) => rfl
  | token .elementMarker => rfl
  | token .blockMarker => rfl
  | array items => rw [fill?, fill?, fillItems?_congr items h]
  | object fields => rw [fill?, fill?, fillFields?_congr fields h]

theorem fillItems?_congr (ts : List RowTree) (h : ∀ id ∈ itemReferences ts, f id = f' id) :
    fillItems? f ts = fillItems? f' ts := by
  match ts with
  | [] => rfl
  | t :: ts =>
    rw [fillItems?, fillItems?, fill?_congr t fun id hi => h id (List.mem_append_left _ hi),
      fillItems?_congr ts fun id hi => h id (List.mem_append_right _ hi)]

theorem fillFields?_congr (fs : List (String × RowTree))
    (h : ∀ id ∈ fieldReferences fs, f id = f' id) : fillFields? f fs = fillFields? f' fs := by
  match fs with
  | [] => rfl
  | (k, t) :: fs =>
    rw [fillFields?, fillFields?, fill?_congr t fun id hi => h id (List.mem_append_left _ hi),
      fillFields?_congr fs fun id hi => h id (List.mem_append_right _ hi)]

end

mutual

theorem fill?_self (t : RowTree) : t.fill? (fun id => some (token (.reference id))) = some t := by
  match t with
  | word cs => rfl
  | token (.reference id) => rfl
  | token (.literal s) => rfl
  | token .elementMarker => rfl
  | token .blockMarker => rfl
  | array items => rw [fill?, fillItems?_self items]; rfl
  | object fields => rw [fill?, fillFields?_self fields]; rfl

theorem fillItems?_self (ts : List RowTree) :
    fillItems? (fun id => some (token (.reference id))) ts = some ts := by
  match ts with
  | [] => rfl
  | t :: ts => rw [fillItems?, fill?_self t, fillItems?_self ts]; rfl

theorem fillFields?_self (fs : List (String × RowTree)) :
    fillFields? (fun id => some (token (.reference id))) fs = some fs := by
  match fs with
  | [] => rfl
  | (k, t) :: fs => rw [fillFields?, fill?_self t, fillFields?_self fs]; rfl

end

theorem fill?_of_references_eq_nil {t : RowTree} (h : t.references = []) : t.fill? f = some t := by
  rw [← fill?_self t]
  apply fill?_congr t
  intro id hi
  rw [h] at hi
  cases hi

end

end RowTree
end TreeStream
