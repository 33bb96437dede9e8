import TreeStream.Host.Script
import TreeStream.Scenario.Build

/-!
# Reports

How a scenario reports models, outcomes and errors: as JSON values that show everything but code.
-/

namespace TreeStream
namespace Scenario
namespace Report

variable {κ : Type}

def tagged (tag : String) (fields : List (String × Json)) : Json :=
  .object (("t", .string tag) :: fields)

/-- A 64-bit pattern as sixteen hexadecimal digits. -/
def bits (n : Nat) : String :=
  let digits := Nat.toDigits 16 n
  String.ofList (List.replicate (16 - digits.length) '0' ++ digits)

def ofNumber (d : Double) : Json :=
  tagged "num" [("bits", .string (if d = .nan then "nan" else bits d.toBits))]

mutual

/-- A model, shown in full. -/
def ofModel : Model κ → Json
  | .null => .null
  | .bool b => .bool b
  | .string s => .string s
  | .array items => .array (ofItems items)
  | .undefined => tagged "undef" []
  | .number d => ofNumber d
  | .bigInt i => tagged "big" [("v", .string (String.ofList (Json.intChars i)))]
  | .symbol d => tagged "sym" [("v", Json.ofString? d)]
  | .function name _ => tagged "fn" [("name", Json.ofString? name)]
  | .record ⟨_, fs⟩ => tagged "rec" [("e", .array (ofFields fs))]
  | .instanceOf className ⟨_, fs⟩ =>
    tagged "inst" [("class", .string className), ("e", .array (ofFields fs))]
  | .element ⟨renderable, key, ⟨_, fs⟩⟩ =>
    tagged "el" [("name", .string renderable.displayName), ("key", Json.ofString? key),
      ("props", .array (ofFields fs))]
  | .serverBlock b =>
    tagged "block" [("id", .string b.module.id), ("path", .string b.module.path),
      ("exports", .array (b.module.exports.map .string))]
  | .marker m => tagged "marker" [("v", .string m.description)]
  | .custom typeName _ => tagged "custom" [("name", .string typeName)]

def ofItems : List (Model κ) → List Json
  | [] => []
  | m :: ms => ofModel m :: ofItems ms

def ofFields {keys : List String} : Fields (Model κ) keys → List Json
  | .nil => []
  | .cons k m _ fs => .array [.string k, ofModel m] :: ofFields fs

end

def ofModel? (m : Option (Model κ)) : Json :=
  match m with
  | none => .null
  | some m => ofModel m

/-- An error inside another value. -/
def ofError (e : RenderError) : Json :=
  .object [("code", .string e.code), ("message", .string e.message),
    ("stack", Json.ofString? e.stack)]

/-- An error as the answer to a call. -/
def failure (e : RenderError) : Json :=
  .object [("error", .string e.code), ("message", .string e.message)]

def ofResolution : Resolution κ (Model κ) → Json
  | .ready m => .object [("ready", ofModel m)]
  | .suspended _ => .string "suspended"
  | .failed e => .object [("failed", ofError e)]

def ofStatus : PromiseStatus κ → Json
  | .pending => .object [("is_pending", .bool true), ("status", .string "pending")]
  | .settled (.ok m) =>
    .object [("is_pending", .bool false), ("status", .object [("fulfilled", ofModel m)])]
  | .settled (.error e) =>
    .object [("is_pending", .bool false), ("status", .object [("rejected", ofError e)])]

/-- The outcome of an operation that gives nothing back. -/
def ofDone : Except RenderError Unit → Json
  | .ok () => .string "ok"
  | .error e => failure e

end Report
end Scenario
end TreeStream
