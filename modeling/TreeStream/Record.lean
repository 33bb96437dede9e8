/-!
# Records in insertion order

A record lists its fields in the order in which their keys first came, and no key comes twice.
Inserting under a known key replaces the value where it stands, so a record reads back the last
value inserted (`get?_insert`).
-/

namespace TreeStream

/-- Fields under these keys, each key apart from those that follow. -/
inductive Fields (α : Type) : List String → Type where
  | nil : Fields α []
  | cons {keys : List String} (key : String) (value : α) (fresh : key ∉ keys)
    (rest : Fields α keys) : Fields α (key :: keys)

namespace Fields

variable {α : Type} {keys : List String}

def entries {keys : List String} : Fields α keys → List (String × α)
  | nil => []
  | cons key value _ rest => (key, value) :: rest.entries

theorem nodup (fs : Fields α keys) : keys.Nodup := by
  induction fs with
  | nil => exact List.nodup_nil
  | cons key value fresh rest ih => exact List.nodup_cons.mpr ⟨fresh, ih⟩

theorem keys_entries (fs : Fields α keys) : fs.entries.map Prod.fst = keys := by
  induction fs with
  | nil => rfl
  | cons key value fresh rest ih => exact congrArg (key :: ·) ih

end Fields

/-- String-keyed fields in order of first insertion. -/
structure Record (α : Type) where
  keys : List String
  fields : Fields α keys

namespace Record

variable {α : Type}

def empty : Record α := ⟨[], .nil⟩

def entries (r : Record α) : List (String × α) := r.fields.entries

/-- Entries as a record, which has just their keys. -/
def collect : (es : List (String × α)) → (es.map Prod.fst).Nodup →
    { r : Record α // r.keys = es.map Prod.fst }
  | [], _ => ⟨empty, rfl⟩
  | (key, value) :: es, h =>
    let rest := collect es (List.nodup_cons.mp h).2
    have fresh : key ∉ rest.val.keys := by
      rw [rest.property]
      exact (List.nodup_cons.mp h).1
    ⟨⟨key :: rest.val.keys, .cons key value fresh rest.val.fields⟩,
      congrArg (key :: ·) rest.property⟩

def ofEntries (es : List (String × α)) (h : (es.map Prod.fst).Nodup) : Record α :=
  (collect es h).val

@[simp] theorem entries_empty : (empty : Record α).entries = [] := rfl

@[simp] theorem entries_ofEntries (es : List (String × α)) (h : (es.map Prod.fst).Nodup) :
    (ofEntries es h).entries = es := by
  induction es with
  | nil => rfl
  | cons e es ih => exact congrArg (e :: ·) (ih (List.nodup_cons.mp h).2)

@[simp] theorem keys_entries (r : Record α) : r.entries.map Prod.fst = r.keys :=
  r.fields.keys_entries

theorem nodup_keys (r : Record α) : r.keys.Nodup := r.fields.nodup

theorem nodup_entries (r : Record α) : (r.entries.map Prod.fst).Nodup :=
  r.keys_entries.symm ▸ r.nodup_keys

theorem cons_congr {keys keys' : List String} {fs : Fields α keys} {fs' : Fields α keys'}
    (h : (⟨keys, fs⟩ : Record α) = ⟨keys', fs'⟩) (key : String) (value : α) (fresh : key ∉ keys)
    (fresh' : key ∉ keys') :
    (⟨_, .cons key value fresh fs⟩ : Record α) = ⟨_, .cons key value fresh' fs'⟩ := by
  cases h
  rfl

theorem ofEntries_entries (r : Record α) (h : (r.entries.map Prod.fst).Nodup) :
    ofEntries r.entries h = r := by
  obtain ⟨keys, fs⟩ := r
  induction fs with
  | nil => rfl
  | cons key value fresh rest ih => exact cons_congr (ih (List.nodup_cons.mp h).2) key value _ fresh

theorem ext {r r' : Record α} (h : r.entries = r'.entries) : r = r' := by
  rw [← r.ofEntries_entries r.nodup_entries, ← r'.ofEntries_entries r'.nodup_entries]
  simp only [h]

/-- Replaces the value of the first entry with this key, or adds an entry at the end. -/
def place (key : String) (value : α) : List (String × α) → List (String × α)
  | [] => [(key, value)]
  | (k, v) :: rest => if k = key then (k, value) :: rest else (k, v) :: place key value rest

theorem keys_place (key : String) (value : α) (es : List (String × α)) :
    (place key value es).map Prod.fst =
      if key ∈ es.map Prod.fst then es.map Prod.fst else es.map Prod.fst ++ [key] := by
  induction es with
  | nil => simp [place]
  | cons e es ih =>
    obtain ⟨a, b⟩ := e
    by_cases ha : a = key
    · simp [place, ha]
    · have hk : ¬ key = a := fun h => ha h.symm
      simp only [place, ha, if_false, List.map_cons, ih, List.mem_cons, hk, false_or]
      split <;> simp

theorem nodup_place (key : String) (value : α) (es : List (String × α))
    (h : (es.map Prod.fst).Nodup) : ((place key value es).map Prod.fst).Nodup := by
  rw [keys_place]
  split
  · exact h
  · next hk =>
    refine List.nodup_append.mpr ⟨h, by simp, ?_⟩
    intro a ha b hb he
    exact hk (List.mem_singleton.mp hb ▸ he ▸ ha)

theorem place_of_notMem (key : String) (value : α) (es : List (String × α))
    (h : key ∉ es.map Prod.fst) : place key value es = es ++ [(key, value)] := by
  induction es with
  | nil => rfl
  | cons e es ih =>
    obtain ⟨k, v⟩ := e
    simp only [List.map_cons, List.mem_cons, not_or] at h
    have hk : ¬ k = key := fun he => h.1 he.symm
    simp [place, hk, ih h.2]

/-- Places pairs one after the other. -/
def placeAll (pairs es : List (String × α)) : List (String × α) :=
  pairs.foldl (fun es p => place p.1 p.2 es) es

theorem nodup_placeAll (pairs es : List (String × α)) (h : (es.map Prod.fst).Nodup) :
    ((placeAll pairs es).map Prod.fst).Nodup := by
  induction pairs generalizing es with
  | nil => exact h
  | cons p ps ih => exact ih _ (nodup_place p.1 p.2 es h)

theorem placeAll_of_nodup (pairs es : List (String × α))
    (h : (es.map Prod.fst ++ pairs.map Prod.fst).Nodup) : placeAll pairs es = es ++ pairs := by
  induction pairs generalizing es with
  | nil => simp [placeAll]
  | cons p ps ih =>
    have hnew : p.1 ∉ es.map Prod.fst := by
      intro hmem
      exact (List.nodup_append.mp h).2.2 p.1 hmem p.1 List.mem_cons_self rfl
    have hnext := ih (es ++ [p]) (by simpa using h)
    rw [placeAll, List.foldl_cons, place_of_notMem p.1 p.2 es hnew]
    simpa [placeAll] using hnext

def insert (r : Record α) (key : String) (value : α) : Record α :=
  ofEntries (place key value r.entries) (nodup_place key value _ r.nodup_entries)

def get? (r : Record α) (key : String) : Option α := r.entries.lookup key

def contains (r : Record α) (key : String) : Bool := (r.get? key).isSome

def size (r : Record α) : Nat := r.entries.length

def isEmpty (r : Record α) : Bool := r.entries.isEmpty

/-- Inserts the pairs one after the other; a repeated key replaces the earlier value in place. -/
def ofList (pairs : List (String × α)) : Record α :=
  ofEntries (placeAll pairs []) (nodup_placeAll pairs [] List.nodup_nil)

/-- Inserts and gives back the value that was replaced. -/
def replace (r : Record α) (key : String) (value : α) : Option α × Record α :=
  (r.get? key, r.insert key value)

@[simp] theorem entries_insert (r : Record α) (key : String) (value : α) :
    (r.insert key value).entries = place key value r.entries :=
  entries_ofEntries _ _

theorem lookup_place (key : String) (value : α) (k : String) (es : List (String × α)) :
    (place key value es).lookup k = if k = key then some value else es.lookup k := by
  induction es with
  | nil => grind [place]
  | cons e es ih => grind [place]

theorem get?_insert (r : Record α) (key k : String) (value : α) :
    (r.insert key value).get? k = if k = key then some value else r.get? k := by
  rw [get?, entries_insert]
  exact lookup_place key value k r.entries

theorem keys_insert (r : Record α) (key : String) (value : α) :
    (r.insert key value).keys = if key ∈ r.keys then r.keys else r.keys ++ [key] := by
  rw [← keys_entries, entries_insert, keys_place, keys_entries]

theorem ofList_append (pairs : List (String × α)) (p : String × α) :
    ofList (pairs ++ [p]) = (ofList pairs).insert p.1 p.2 := by
  refine ext ?_
  simp only [ofList, placeAll, entries_insert, entries_ofEntries, List.foldl_append, List.foldl_cons,
    List.foldl_nil]

/-- Pairs with distinct keys are the entries of the record made of them. -/
theorem entries_ofList {pairs : List (String × α)} (h : (pairs.map Prod.fst).Nodup) :
    (ofList pairs).entries = pairs := by
  rw [ofList, entries_ofEntries]
  exact placeAll_of_nodup pairs [] h

end Record
end TreeStream
