import TreeStream.RenderError

/-!
# Client modules

A module reference names a module of the client. The manifest maps module ids to what a client
needs to load them. Each registration takes the next chunk number, also one that replaces an
earlier entry, so of fewer than `2 ^ 32` registrations no two share a chunk name.
-/

namespace TreeStream

/-- A reference to a client module. -/
structure ModuleReference where
  id : String
  path : String
  exports : List String
  deriving DecidableEq

/-- What a client needs to load a module. -/
structure ModuleMetadata where
  path : String
  chunk : UInt32
  name : String
  deriving DecidableEq

/-- The known modules, and the number of the last registration, which wraps. -/
structure Manifest where
  entries : Record ModuleMetadata := .empty
  registrations : UInt32 := 0

def ModuleMetadata.chunkName (m : ModuleMetadata) : String := "client" ++ Nat.repr m.chunk.toNat

def ModuleMetadata.toJson (m : ModuleMetadata) : Json :=
  .object [("id", .string m.path), ("chunks", .array [.string m.chunkName]),
    ("name", .string m.name)]

namespace Manifest

def empty : Manifest := {}

/-- Registers a module under its id, in place of an earlier one. -/
def register (m : Manifest) (id path exportName : String) : Manifest :=
  { entries := m.entries.insert id ⟨path, m.registrations + 1, exportName⟩
    registrations := m.registrations + 1 }

def contains (m : Manifest) (id : String) : Bool := m.entries.contains id

def size (m : Manifest) : Nat := m.entries.size

/-- The metadata of a reference: the entry of its id, under the name of its first export if it has
one. The path of the reference is not looked at. -/
def lookup (m : Manifest) (r : ModuleReference) : Except RenderError ModuleMetadata :=
  match m.entries.get? r.id with
  | none => .error (.moduleResolution
      ("Could not find the module \"" ++ r.id ++ "\" in the bundler manifest."))
  | some entry => .ok { entry with name := r.exports.head?.getD entry.name }

theorem lookup_register_self (m : Manifest) (id path name : String) (r : ModuleReference)
    (h : r.id = id) :
    (m.register id path name).lookup r =
      .ok ⟨path, m.registrations + 1, r.exports.head?.getD name⟩ := by
  simp [lookup, register, Record.get?_insert, h]

theorem lookup_register_ne (m : Manifest) (id path name : String) (r : ModuleReference)
    (h : r.id ≠ id) : (m.register id path name).lookup r = m.lookup r := by
  simp [lookup, register, Record.get?_insert, h]

end Manifest
end TreeStream
