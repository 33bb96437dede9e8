import Mathlib.Data.List.Induction
import TreeStream.Serializer.Basic

/-!
# Records as they are built

A record is built by insertions, perhaps from a list of pairs. However it was built, it has each key
once, where it was first inserted, and under it the value inserted last (`Holds`); one more
insertion changes a value where it stands or adds a field behind all others (`Placed`). The
serializer walks over the fields of a record, so the object that it fills never meets a key twice
(`position_record`).
-/

namespace TreeStream
namespace Record

variable {α : Type}

/-! ## Steps -/

/-- A step in building a record: an insertion that tells what it replaced, one that hands the record
on, or a start from a list of pairs. -/
inductive Step (α : Type) where
  | insert (key : String) (value : α)
  | adding (key : String) (value : α)
  | collect (pairs : List (String × α))

def Step.apply (r : Record α) : Step α → Record α
  | insert key value => (r.replace key value).2
  | adding key value => r.insert key value
  | collect pairs => ofList pairs

/-- All that was inserted, up to and with a step, into the record that the step leaves. -/
def Step.extend (ps : List (String × α)) : Step α → List (String × α)
  | insert key value => ps ++ [(key, value)]
  | adding key value => ps ++ [(key, value)]
  | collect pairs => pairs

def built (steps : List (Step α)) : Record α := steps.foldl Step.apply empty

/-- What was inserted into that record, in the order of the insertions. -/
def inserted (steps : List (Step α)) : List (String × α) := steps.foldl Step.extend []

/-! ## What a record holds -/

/-- The record has the keys of the pairs, each once, in order of first insertion, and under each the
value inserted last. -/
structure Holds (ps : List (String × α)) (r : Record α) : Prop where
  nodup : r.keys.Nodup
  keys : r.keys = (ps.map Prod.fst).eraseDups
  get? : ∀ k, r.get? k = ps.reverse.lookup k

theorem lookup_eq_none_iff_notMem {key : String} {es : List (String × α)} :
    es.lookup key = none ↔ key ∉ es.map Prod.fst := by
  rw [List.lookup_eq_none_iff, List.mem_map]
  constructor
  · rintro h ⟨p, hp, rfl⟩
    simpa using h p hp
  · intro h p hp
    simpa using fun he : key = p.1 => h ⟨p, hp, he.symm⟩

theorem Holds.empty : Holds [] (empty : Record α) := ⟨List.nodup_nil, rfl, fun _ => rfl⟩

theorem Holds.mem_keys {ps : List (String × α)} {r : Record α} (h : Holds ps r) {k : String} :
    k ∈ r.keys ↔ k ∈ ps.map Prod.fst := by
  rw [h.keys, List.mem_eraseDups]

theorem Holds.insert {ps : List (String × α)} {r : Record α} (h : Holds ps r) (key : String)
    (value : α) : Holds (ps ++ [(key, value)]) (r.insert key value) where
  nodup := nodup_keys _
  keys := by
    have hlast : ([key].removeAll (ps.map Prod.fst)).eraseDups =
        if key ∈ r.keys then [] else [key] := by
      split
      · next hk => simp [List.removeAll, h.mem_keys.mp hk]
      · next hk => simp [List.removeAll, mt h.mem_keys.mpr hk, List.eraseDups_cons]
    rw [keys_insert, List.map_append, List.map_singleton, List.eraseDups_append, hlast, ← h.keys]
    split <;> simp
  get? k := by
    rw [get?_insert, h.get?, List.reverse_append, List.reverse_singleton, List.singleton_append,
      List.lookup_cons]
    by_cases hk : k = key
    · simp [hk]
    · simp [hk, beq_false_of_ne hk]

theorem Holds.get?_eq_none {ps : List (String × α)} {r : Record α} (h : Holds ps r) {k : String} :
    r.get? k = none ↔ k ∉ ps.map Prod.fst := by
  rw [Record.get?, lookup_eq_none_iff_notMem, keys_entries]
  exact not_congr h.mem_keys

theorem Holds.ofList (ps : List (String × α)) : Holds ps (ofList ps) := by
  induction ps using List.reverseRecOn with
  | nil => exact .empty
  | append_singleton ps p ih =>
    rw [ofList_append]
    exact ih.insert p.1 p.2

theorem Holds.step {ps : List (String × α)} {r : Record α} (h : Holds ps r) (s : Step α) :
    Holds (s.extend ps) (s.apply r) := by
  cases s with
  | insert key value => exact h.insert key value
  | adding key value => exact h.insert key value
  | collect pairs => exact .ofList pairs

theorem built_holds (steps : List (Step α)) : Holds (inserted steps) (built steps) := by
  induction steps using List.reverseRecOn with
  | nil => exact .empty
  | append_singleton steps s ih =>
    rw [inserted, built, List.foldl_append, List.foldl_append]
    exact ih.step s

/-! ## One insertion -/

/-- One insertion: a new key comes behind all others, and a known key keeps its place and gives back
its old value. No other entry changes its value or its place. -/
inductive Placed (key : String) (value : α) (r r' : Record α) : Option α → Prop where
  | added (h : key ∉ r.keys) (hr' : r'.entries = r.entries ++ [(key, value)]) :
    Placed key value r r' none
  | replaced {before after : List (String × α)} {old : α}
    (hr : r.entries = before ++ (key, old) :: after) (hb : key ∉ before.map Prod.fst)
    (ha : key ∉ after.map Prod.fst) (hr' : r'.entries = before ++ (key, value) :: after) :
    Placed key value r r' (some old)

theorem place_append_of_notMem (key : String) (old value : α) (before after : List (String × α))
    (h : key ∉ before.map Prod.fst) :
    place key value (before ++ (key, old) :: after) = before ++ (key, value) :: after := by
  induction before with
  | nil => simp [place]
  | cons e before ih =>
    obtain ⟨k, v⟩ := e
    simp only [List.map_cons, List.mem_cons, not_or] at h
    simp [place, Ne.symm h.1, ih h.2]

theorem placed_replace (r : Record α) (key : String) (value : α) :
    Placed key value r (r.replace key value).2 (r.replace key value).1 := by
  by_cases hk : key ∈ r.entries.map Prod.fst
  · obtain ⟨⟨k, old⟩, hmem, rfl⟩ := List.mem_map.mp hk
    obtain ⟨before, after, hr⟩ := List.append_of_mem hmem
    have hsplit : (before.map Prod.fst ++ k :: after.map Prod.fst).Nodup := by
      simpa [hr] using r.nodup_entries
    rw [List.nodup_append, List.nodup_cons] at hsplit
    have hb : k ∉ before.map Prod.fst := fun hb => hsplit.2.2 k hb k List.mem_cons_self rfl
    have hold : r.get? k = some old := by
      simp [get?, hr, List.lookup_append, lookup_eq_none_iff_notMem.mpr hb]
    rw [replace, hold]
    refine .replaced hr hb hsplit.2.1.1 ?_
    rw [entries_insert, hr, place_append_of_notMem k old value before after hb]
  · rw [replace, get?, lookup_eq_none_iff_notMem.mpr hk]
    refine .added (r.keys_entries ▸ hk) ?_
    rw [entries_insert, place_of_notMem key value r.entries hk]

theorem Placed.size {key : String} {value : α} {r r' : Record α} {old : Option α}
    (h : Placed key value r r' old) : r'.size = if key ∈ r.keys then r.size else r.size + 1 := by
  cases h with
  | added h hr' => simp [Record.size, h, hr']
  | replaced hr hb ha hr' => simp [Record.size, ← keys_entries, hr, hr']

end Record

/-! ## Objects of records -/

namespace Serializer

variable {κ α β : Type} {m : Type → Type} [Monad m] [LawfulMonad m]

/-- What comes after the fields may take their keys to be keys of the record, in its order. -/
theorem overFields_bind_congr {f : String → α → ExceptT RenderError m (Option Json)}
    {fs : List (String × α)} {g g' : List (String × Json) → ExceptT RenderError m β}
    (h : ∀ js, (js.map Prod.fst).Sublist (fs.map Prod.fst) → g js = g' js) :
    overFields f fs >>= g = overFields f fs >>= g' := by
  induction fs generalizing g g' with
  | nil => simpa [overFields] using h [] .slnil
  | cons p fs ih =>
    obtain ⟨k, x⟩ := p
    simp only [overFields, bind_assoc, pure_bind]
    congr 1
    funext j
    refine ih fun js hjs => ?_
    cases j with
    | none => exact h _ (hjs.cons k)
    | some j => exact h _ (hjs.cons_cons k)

variable [GivesUp m]

/-- The object of a record is what the walk over its entries gives, one field behind the other. -/
theorem position_record (code : CodeEffects κ m) (ctx : SerializerContext κ m) (n : Nat)
    (parent : Container κ) (key : String) (substituted : Bool) (r : Record (Model κ)) :
    position code ctx (n + 1) parent key substituted (.record r) = (do
      let js ← overFields (fun k x => position code ctx n (.fields r) k false x) r.entries
      pure (some (.object js))) := by
  rw [position]
  refine overFields_bind_congr fun js hjs => ?_
  rw [Json.ofFields_of_nodup (hjs.nodup r.nodup_entries)]

end Serializer

namespace Record

open Serializer

variable {κ : Type}

/-- Whatever the steps that built a record, it has the keys that were inserted, each once and in
order of first insertion, with the values inserted last; a key that was never inserted has none. One
more insertion gives back just what it replaces, adds one to the size for a new key only, and leaves
all other entries as and where they are. So the object that the serializer fills from the record
takes every field that is not undefined, one behind the other, and never one in place of another. -/
theorem insertion_ordered {m : Type → Type} [Monad m] [LawfulMonad m] [GivesUp m]
    (code : CodeEffects κ m) (ctx : SerializerContext κ m) (steps : List (Step (Model κ))) :
    Holds (inserted steps) (built steps) ∧
      (∀ k, (built steps).get? k = none ↔ k ∉ (inserted steps).map Prod.fst) ∧
      (∀ key value old r, (built steps).replace key value = (old, r) →
        Placed key value (built steps) r old ∧ r = (built steps).insert key value ∧
          old = (built steps).get? key ∧
          r.size = if key ∈ (built steps).keys then (built steps).size
            else (built steps).size + 1) ∧
      ∀ n parent key substituted,
        position code ctx (n + 1) parent key substituted (.record (built steps)) = (do
          let js ← overFields (fun k x => position code ctx n (.fields (built steps)) k false x)
            (built steps).entries
          pure (some (.object js))) := by
  have hholds := built_holds steps
  refine ⟨hholds, fun k => hholds.get?_eq_none, ?_, fun n parent key substituted =>
    position_record code ctx n parent key substituted _⟩
  rintro key value old r hr
  obtain ⟨rfl, rfl⟩ := Prod.mk.inj hr
  have hplaced := placed_replace (built steps) key value
  exact ⟨hplaced, rfl, rfl, hplaced.size⟩

/-! ### A key that comes twice

Two fields, then the first one again. -/

namespace Twice

def steps : List (Step (Model Unit)) :=
  [.collect [("a", .null), ("b", .undefined)], .insert "a" (.bool true), .adding "c" (.bool false)]

def code : CodeEffects Unit Option where
  render _ _ _ := none
  load _ := none
  toModel _ := none

def context : SerializerContext Unit Option where
  suspend _ _ := none
  emitError _ := none
  metadata _ := none
  strict := false
  warn _ := none

/-- The first key keeps its place under its new value, and the undefined field is left out of the
object. -/
theorem insertion_ordered_twice :
    LawfulMonad Option ∧ (built steps).keys = ["a", "b", "c"] ∧
      ((built steps).replace "b" .null).1 = some .undefined ∧
      (position code context 2 (.whole .null) "" false (.record (built steps))).run =
        some (.ok (some (.object [("a", .bool true), ("c", .bool false)]))) := by
  obtain ⟨hholds, -, hreplace, hobject⟩ := insertion_ordered code context steps
  refine ⟨inferInstance, hholds.keys, (hreplace "b" .null _ _ rfl).2.2.1, ?_⟩
  rw [hobject]
  rfl

end Twice

end Record
end TreeStream
