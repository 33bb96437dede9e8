import TreeStream.Proofs.Decimals
import TreeStream.Proofs.Walks

/-!
# Plain data as a model

A JSON value whose objects have distinct keys and whose numbers are finite doubles becomes a model
that the serializer asks nothing for: the walk over it ends with one value, provided that it may go
as deep as the value is nested. Once the literal strings of that value are read, it is the value
that the model came from: the keys stand in the same order, and each number is the same double.
-/

namespace TreeStream
namespace Json

mutual

/-- Every object has distinct keys, and every number is a finite double. -/
def IsPlain : Json → Prop
  | number n => n.toDouble.isFinite = true
  | array items => ArePlain items
  | object fields => (fields.map Prod.fst).Nodup ∧ HavePlain fields
  | _ => True

def ArePlain : List Json → Prop
  | [] => True
  | j :: js => IsPlain j ∧ ArePlain js

def HavePlain : List (String × Json) → Prop
  | [] => True
  | (_, j) :: fs => IsPlain j ∧ HavePlain fs

end

mutual

/-- The value with the literal of each string; keys are left as they are. -/
def unescaped : Json → Json
  | string s => string (RowToken.unescape s)
  | array items => array (itemsUnescaped items)
  | object fields => object (fieldsUnescaped fields)
  | j => j

def itemsUnescaped : List Json → List Json
  | [] => []
  | j :: js => unescaped j :: itemsUnescaped js

def fieldsUnescaped : List (String × Json) → List (String × Json)
  | [] => []
  | (k, j) :: fs => (k, unescaped j) :: fieldsUnescaped fs

end

mutual

/-- The same value; each number is the same double, and is also read as it from its text. -/
inductive Alike : Json → Json → Prop
  | null : Alike null null
  | bool (b : Bool) : Alike (bool b) (bool b)
  | number {m n : JsonNumber} (hread : Double.ofText? (number m).text = some m.toDouble)
    (h : m.toDouble.Same n.toDouble) : Alike (number m) (number n)
  | string (s : String) : Alike (string s) (string s)
  | array {js js' : List Json} (h : ItemsAlike js js') : Alike (array js) (array js')
  | object {fs fs' : List (String × Json)} (h : FieldsAlike fs fs') : Alike (object fs) (object fs')

inductive ItemsAlike : List Json → List Json → Prop
  | nil : ItemsAlike [] []
  | cons {j j' js js'} (h : Alike j j') (hs : ItemsAlike js js') : ItemsAlike (j :: js) (j' :: js')

inductive FieldsAlike : List (String × Json) → List (String × Json) → Prop
  | nil : FieldsAlike [] []
  | cons (k : String) {j j' fs fs'} (h : Alike j j') (hs : FieldsAlike fs fs') :
    FieldsAlike ((k, j) :: fs) ((k, j') :: fs')

end

mutual

def written : Json → Json
  | number n => Serializer.ofNumber n.toDouble
  | string s => string (RowToken.escape s)
  | array items => array (itemsWritten items)
  | object fields => object (fieldsWritten fields)
  | j => j

def itemsWritten : List Json → List Json
  | [] => []
  | j :: js => written j :: itemsWritten js

def fieldsWritten : List (String × Json) → List (String × Json)
  | [] => []
  | (k, j) :: fs => (k, written j) :: fieldsWritten fs

end

mutual

def height : Json → Nat
  | array items => itemsHeight items + 1
  | object fields => fieldsHeight fields + 1
  | _ => 1

def itemsHeight : List Json → Nat
  | [] => 0
  | j :: js => max (height j) (itemsHeight js)

def fieldsHeight : List (String × Json) → Nat
  | [] => 0
  | (_, j) :: fs => max (height j) (fieldsHeight fs)

end

/-! ## What is written is the value -/

theorem ofText?_float {d : Double} (hd : d.isFinite = true) :
    Double.ofText? (number (.float d)).text = some d := by
  cases d with
  | nan => cases hd
  | infinite negative => cases hd
  | finite negative e f => exact Double.ofText?_text .row negative e f

theorem ofNumber_alike {n : JsonNumber} (hn : n.toDouble.isFinite = true) :
    Alike (Serializer.ofNumber n.toDouble) (number n) := by
  have hfloat : Alike (number (.float n.toDouble)) (number n) :=
    .number (ofText?_float hn) (.of_eq hn rfl)
  rw [Serializer.ofNumber, if_pos hn]
  cases hi : n.toDouble.toInt? with
  | none => exact hfloat
  | some i =>
    have hint : i.natAbs < UInt64.size → Alike (number (.int i)) (number n) := fun hsmall =>
      .number (Double.ofText?_intChars hsmall) (Double.ofInt_same hi)
    have hsize : 1 <<< 63 ≤ UInt64.size := by decide
    dsimp only
    split
    case isTrue hsmall => exact hint (hsmall.trans_le hsize)
    case isFalse =>
      split
      case isTrue hsmall =>
        simp only [Bool.and_eq_true, decide_eq_true_eq] at hsmall
        exact hint (by omega)
      case isFalse => exact hfloat

theorem unescaped_ofNumber (d : Double) :
    unescaped (Serializer.ofNumber d) = Serializer.ofNumber d := by
  unfold Serializer.ofNumber
  split
  · split
    · split
      · rfl
      · split <;> rfl
    · rfl
  · rfl

mutual

theorem written_alike {j : Json} (hj : j.IsPlain) : Alike j.written.unescaped j := by
  match j with
  | null => exact .null
  | bool b => exact .bool b
  | number n =>
    rw [written, unescaped_ofNumber]
    exact ofNumber_alike hj
  | string s =>
    rw [written, unescaped, RowToken.unescape_escape]
    exact .string s
  | array items => exact .array (itemsWritten_alike hj)
  | object fields => exact .object (fieldsWritten_alike hj.2)

theorem itemsWritten_alike {js : List Json} (hjs : ArePlain js) :
    ItemsAlike (itemsUnescaped (itemsWritten js)) js := by
  match js with
  | [] => exact .nil
  | j :: js => exact .cons (written_alike hjs.1) (itemsWritten_alike hjs.2)

theorem fieldsWritten_alike {fs : List (String × Json)} (hfs : HavePlain fs) :
    FieldsAlike (fieldsUnescaped (fieldsWritten fs)) fs := by
  match fs with
  | [] => exact .nil
  | (k, j) :: fs => exact .cons k (written_alike hfs.1) (fieldsWritten_alike hfs.2)

end

end Json

/-! ## The walk over plain data -/

namespace Serializer

open Json

variable {κ : Type}

/-- A walk that asks for nothing and ends with a value, if it may go deep enough. -/
def direct {α : Type} (isDeep : Prop) [Decidable isDeep] (a : α) : RefusableWalk κ α :=
  ExceptT.mk (if isDeep then .done (.ok a) else .stuck)

theorem direct_of {α : Type} {p : Prop} [Decidable p] (hp : p) (a : α) :
    direct (κ := κ) p a = pure a := by
  rw [direct, if_pos hp]
  rfl

theorem direct_of_not {α : Type} {p : Prop} [Decidable p] (hp : ¬ p) (a : α) :
    direct (κ := κ) p a = ExceptT.mk .stuck := by
  rw [direct, if_neg hp]

theorem direct_bind {α β : Type} {p q s : Prop} [Decidable p] [Decidable q] [Decidable s] {a : α}
    {b : β} {k : α → RefusableWalk κ β} (hk : k a = direct q b) (hs : s ↔ p ∧ q) :
    direct (κ := κ) p a >>= k = direct s b := by
  by_cases hp : p
  · have hk' : direct (κ := κ) p a >>= k = k a := by
      rw [direct_of hp]
      rfl
    rw [hk', hk]
    simp only [direct, hs, hp, true_and]
  · rw [direct_of_not hp, direct_of_not fun h => hp (hs.mp h).1]
    rfl

theorem keys_fieldsOfJson (fs : List (String × Json)) :
    (Model.fieldsOfJson (κ := κ) fs).map Prod.fst = fs.map Prod.fst := by
  induction fs with
  | nil => rfl
  | cons field fs ih => exact congrArg (field.1 :: ·) ih

theorem keys_fieldsWritten (fs : List (String × Json)) :
    (fieldsWritten fs).map Prod.fst = fs.map Prod.fst := by
  induction fs with
  | nil => rfl
  | cons field fs ih => exact congrArg (field.1 :: ·) ih

variable {ctx : SerializerContext κ (Walk κ)}

theorem entries_ofJson {fs : List (String × Json)} (hfs : (fs.map Prod.fst).Nodup) :
    (Record.ofList (Model.fieldsOfJson (κ := κ) fs)).entries = Model.fieldsOfJson fs :=
  Record.entries_ofList (by rwa [keys_fieldsOfJson])

theorem ofFields_written {fs : List (String × Json)} (hfs : (fs.map Prod.fst).Nodup) :
    Json.ofFields (fieldsWritten fs) = .object (fieldsWritten fs) :=
  Json.ofFields_of_nodup (by rwa [keys_fieldsWritten])

mutual

/-- The walk over plain data asks for nothing. -/
theorem position_ofJson {v : Json} (hv : v.IsPlain) (n : Nat) (parent : Container κ) (key : String)
    (substituted : Bool) :
    position Walk.code ctx n parent key substituted (Model.ofJson v) =
      direct (v.height ≤ n) (some v.written) := by
  cases n with
  | zero =>
    refine (direct_of_not ?_ _).symm
    cases v <;> simp [height]
  | succ n =>
    match v with
    | .array items =>
      have hitems : overItems (fun k x => position Walk.code ctx n
          (.items (Model.itemsOfJson items)) k false x) 0 (Model.itemsOfJson items) =
            direct (itemsHeight items ≤ n) (itemsWritten items) :=
        overItems_ofJson hv n _ 0
      change overItems (fun k x => position Walk.code ctx n
        (.items (Model.itemsOfJson items)) k false x) 0 (Model.itemsOfJson items) >>=
          (fun js => pure (some (Json.array js))) = _
      rw [hitems]
      exact direct_bind (q := True) (direct_of trivial _).symm (by simp [height])
    | .object fields =>
      have hfields : overFields (fun k x => position Walk.code ctx n
          (.fields (Record.ofList (Model.fieldsOfJson fields))) k false x)
            (Model.fieldsOfJson fields) =
              direct (fieldsHeight fields ≤ n) (fieldsWritten fields) :=
        overFields_ofJson hv.2 n _
      change overFields (fun k x => position Walk.code ctx n
        (.fields (Record.ofList (Model.fieldsOfJson fields))) k false x)
          (Record.ofList (Model.fieldsOfJson fields)).entries >>=
            (fun js => pure (some (Json.ofFields js))) = _
      rw [entries_ofJson hv.1, hfields]
      refine direct_bind (q := True) ?_ (by simp [height])
      rw [ofFields_written hv.1]
      exact (direct_of trivial _).symm
    | .null => exact (direct_of (Nat.succ_le_succ (Nat.zero_le n)) _).symm
    | .bool b => exact (direct_of (Nat.succ_le_succ (Nat.zero_le n)) _).symm
    | .number m => exact (direct_of (Nat.succ_le_succ (Nat.zero_le n)) _).symm
    | .string s => exact (direct_of (Nat.succ_le_succ (Nat.zero_le n)) _).symm

theorem overItems_ofJson {vs : List Json} (hvs : ArePlain vs) (n : Nat) (parent : Container κ)
    (i : Nat) :
    overItems (fun k x => position Walk.code ctx n parent k false x) i (Model.itemsOfJson vs) =
      direct (itemsHeight vs ≤ n) (itemsWritten vs) := by
  match vs with
  | [] => exact (direct_of (Nat.zero_le n) _).symm
  | v :: vs =>
    rw [Model.itemsOfJson, overItems, position_ofJson hvs.1]
    refine direct_bind (q := itemsHeight vs ≤ n) ?_ (by simp [itemsHeight])
    rw [overItems_ofJson hvs.2]
    exact direct_bind (q := True) (direct_of trivial _).symm (by simp)

theorem overFields_ofJson {fs : List (String × Json)} (hfs : HavePlain fs) (n : Nat)
    (parent : Container κ) :
    overFields (fun k x => position Walk.code ctx n parent k false x) (Model.fieldsOfJson fs) =
      direct (fieldsHeight fs ≤ n) (fieldsWritten fs) := by
  match fs with
  | [] => exact (direct_of (Nat.zero_le n) _).symm
  | (k, v) :: fs =>
    rw [Model.fieldsOfJson, overFields, position_ofJson hfs.1]
    refine direct_bind (q := fieldsHeight fs ≤ n) ?_ (by simp [fieldsHeight])
    rw [overFields_ofJson hfs.2]
    exact direct_bind (q := True) (direct_of trivial _).symm (by simp)

end

/-- The text of plain data, written without any effect. -/
theorem serialize_ofJson {v : Json} (hv : v.IsPlain) (n : Nat) :
    serialize Walk.code ctx n (Model.ofJson v) = direct (v.height ≤ n) v.written.text := by
  rw [serialize, position_ofJson hv]
  exact direct_bind (q := True) (direct_of trivial _).symm (by simp)

end Serializer
end TreeStream
