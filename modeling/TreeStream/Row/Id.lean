/-!
# Row ids

Every row has an id below `2 ^ 32`. Ids are given out from zero on; the counter wraps at the end of
its range.
-/

namespace TreeStream

/-- The id of a row, whether it holds a value or an error. -/
structure RowId where
  val : UInt32
  deriving DecidableEq

namespace RowId

def ofNat (n : Nat) : RowId := ⟨UInt32.ofNat n⟩

def toNat (id : RowId) : Nat := id.val.toNat

/-- The id given out after this one. -/
def next (id : RowId) : RowId := ⟨id.val + 1⟩

/-- The id in decimal, as it stands before the colon of a row. -/
def chars (id : RowId) : List Char := Nat.toDigits 10 id.toNat

def text (id : RowId) : String := String.ofList id.chars

/-- The first `n` ids from `id` on. -/
def enumerate (id : RowId) : Nat → List RowId
  | 0 => []
  | n + 1 => id :: enumerate id.next n

theorem toNat_next (id : RowId) (h : id.toNat + 1 < UInt32.size) : id.next.toNat = id.toNat + 1 := by
  have hv : id.val.toNat = id.toNat := rfl
  simp only [next, toNat, UInt32.toNat_add, UInt32.size] at *
  have : (1 : UInt32).toNat = 1 := rfl
  omega

theorem length_enumerate (id : RowId) (n : Nat) : (enumerate id n).length = n := by
  induction n generalizing id with
  | zero => rfl
  | succ n ih => simp [enumerate, ih]

end RowId
end TreeStream
