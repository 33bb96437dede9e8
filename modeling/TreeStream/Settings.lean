import TreeStream.RenderError
import TreeStream.Toml.Reader

/-!
# Settings

A render runs in a mode, with or without strict checks, and with a limit on the rows that a
consumer may leave unread. Settings come from a mode alone, from named variables, or from a
document; what is written to a document reads back as the same settings.
-/

namespace TreeStream

inductive Mode where
  | development
  | production
  deriving DecidableEq

/-- The settings of a render. -/
structure Settings where
  mode : Mode
  strictChecks : Bool
  highWaterMark : Nat
  deriving DecidableEq

/-- The causes of missing settings. -/
inductive SettingsError where
  | invalidMode (text : String)
  | invalidValue (name : String)
  | fileRead (reason : String)
  | fileWrite (reason : String)
  | document
  deriving DecidableEq

def SettingsError.message : SettingsError → String
  | invalidMode text => "Invalid mode: " ++ text
  | invalidValue name => "Invalid config value for " ++ name
  | fileRead reason => "Failed to read config file: " ++ reason
  | fileWrite reason => "Failed to write config file: " ++ reason
  | document => "Failed to parse TOML"

/-- The same failure as an error of a render. -/
def SettingsError.toRenderError (e : SettingsError) : RenderError := .config e.message

namespace Mode

def text : Mode → String
  | development => "development"
  | production => "production"

/-- The mode of a word in letters of either case. Only ASCII letters have a part in these words. -/
def ofText? (s : String) : Except SettingsError Mode :=
  let word := String.ofList (s.toList.map Char.toLower)
  if word = "development" ∨ word = "dev" then .ok development
  else if word = "production" ∨ word = "prod" then .ok production
  else .error (.invalidMode s)

theorem ofText?_text (m : Mode) : ofText? m.text = .ok m := by cases m <;> rfl

end Mode

namespace Settings

def defaultHighWaterMark : Nat := 16

/-- The settings of a mode: development checks strictly. -/
def ofMode (mode : Mode) : Settings := ⟨mode, mode = .development, defaultHighWaterMark⟩

def default : Settings := ofMode .development

def isDevelopment (s : Settings) : Bool := s.mode = .development

def isProduction (s : Settings) : Bool := s.mode = .production

def highWaterMarkName : String := "stream.high_water_mark"

/-- A limit of zero would let no row through. -/
def validate (s : Settings) : Except SettingsError Unit :=
  if s.highWaterMark = 0 then .error (.invalidValue highWaterMarkName) else .ok ()

def validated (s : Settings) : Except SettingsError Settings :=
  match s.validate with
  | .ok () => .ok s
  | .error e => .error e

/-! ## From variables -/

def modeVariable : String := "FLIGHT_MODE"

def strictVariable : String := "FLIGHT_STRICT_CHECKS"

def limitVariable : String := "FLIGHT_HIGH_WATER_MARK"

/-- Digits, perhaps behind a plus sign, of a number below `2 ^ 64`. -/
def limitOf? (s : String) : Option Nat :=
  let cs := s.toList
  let digits := if cs.head? = some '+' then cs.drop 1 else cs
  if digits.isEmpty || !digits.all Char.isDigit then none
  else
    let n := Double.digitsValue digits
    if n < UInt64.size then some n else none

/-- Whether a word switches strict checks on. -/
def isYes (s : String) : Bool :=
  let word := String.ofList (s.toList.map Char.toLower)
  word = "true" || s = "1" || word = "yes"

/-- Settings from variables, on top of those of the mode. -/
def ofLookup (lookup : String → Option String) : Except SettingsError Settings := do
  let base ← match lookup modeVariable with
    | some text => ofMode <$> Mode.ofText? text
    | none => pure default
  let strict := match lookup strictVariable with
    | some text => isYes text
    | none => base.strictChecks
  let limit ← match lookup limitVariable with
    | some text =>
      match limitOf? text with
      | some n => pure n
      | none => .error (.invalidValue limitVariable)
    | none => pure base.highWaterMark
  validated ⟨base.mode, strict, limit⟩

/-! ## Documents -/

open Toml in
/-- A mode is its name, or a table or array without content under its name. -/
def modeOf? : Value → Option Mode
  | .string s =>
    if s = "development" then some .development
    else if s = "production" then some .production
    else none
  | .table _ [(name, content)] =>
    let isEmpty := match content with
      | .table _ [] => true
      | .array [] => true
      | _ => false
    if !isEmpty then none
    else if name = "development" then some .development
    else if name = "production" then some .production
    else none
  | _ => none

open Toml in
def limitOfValue? : Value → Option Nat
  | .integer i => if 0 ≤ i ∧ i < UInt64.size then some i.toNat else none
  | _ => none

mutual

/-- Whether the numbers of a value that is not used are in range. -/
def isReadable : Toml.Value → Bool
  | .integer i => -(1 <<< 127) ≤ i && i < 1 <<< 128
  | .float fits => fits
  | .array items => areReadable items
  | .table _ entries => entriesReadable entries
  | .tables items => tablesReadable items
  | _ => true

def areReadable : List Toml.Value → Bool
  | [] => true
  | v :: vs => isReadable v && areReadable vs

def entriesReadable : List (String × Toml.Value) → Bool
  | [] => true
  | (_, v) :: es => isReadable v && entriesReadable es

def tablesReadable : List (List (String × Toml.Value)) → Bool
  | [] => true
  | t :: ts => entriesReadable t && tablesReadable ts

end

/-- The entries whose names are not asked for. -/
def others (names : List String) (es : Toml.Entries) : Toml.Entries :=
  es.filter fun e => !names.contains e.1

/-- The limit of the stream table; an array gives it as its first item. -/
def streamOf? : Toml.Value → Option Nat
  | .table _ es =>
    if entriesReadable (others ["high_water_mark"] es) then
      (es.lookup "high_water_mark").bind limitOfValue?
    else none
  | .array (first :: _) => limitOfValue? first
  | _ => none

/-- The settings of a document: a mode, and strict checks and a limit where they are not the usual
ones. Other entries are not looked at. -/
def ofEntries? (es : Toml.Entries) : Option Settings := do
  let mode ← (es.lookup "mode").bind modeOf?
  let strict ← match es.lookup "strict_checks" with
    | none => some false
    | some (.boolean b) => some b
    | some _ => none
  let limit ← match es.lookup "stream" with
    | none => some defaultHighWaterMark
    | some v => streamOf? v
  if entriesReadable (others ["mode", "strict_checks", "stream"] es) then
    some ⟨mode, strict, limit⟩
  else none

/-- The settings of a text. -/
def ofDocument (text : String) : Except SettingsError Settings :=
  match (Toml.ofText? text).bind ofEntries? with
  | none => .error .document
  | some s => s.validated

/-- The document of settings. -/
def document (s : Settings) : String :=
  "mode = \"" ++ s.mode.text ++ "\"\nstrict_checks = " ++
    (if s.strictChecks then "true" else "false") ++
    "\n\n[stream]\nhigh_water_mark = " ++ String.ofList (Nat.toDigits 10 s.highWaterMark) ++ "\n"

/-- What the system says of a file or directory that is not there. -/
def missingReason : String := "No such file or directory (os error 2)"

/-- What the system says of bytes that are no text. -/
def notTextReason : String := "stream did not contain valid UTF-8"

/-- The settings of a file, given its bytes if it is there. -/
def ofFile (content : Option ByteArray) : Except SettingsError Settings :=
  match content with
  | none => .error (.fileRead missingReason)
  | some bytes =>
    match String.fromUTF8? bytes with
    | none => .error (.fileRead notTextReason)
    | some text => ofDocument text

/-- The content to be written to a file, if its directory is there. -/
def toFile (directoryExists : Bool) (s : Settings) : Except SettingsError String :=
  if directoryExists then .ok s.document else .error (.fileWrite missingReason)

theorem validate_ok_iff (s : Settings) : s.validate = .ok () ↔ s.highWaterMark ≠ 0 := by
  unfold validate
  split <;> simp_all

end Settings
end TreeStream
