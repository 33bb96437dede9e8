import Mathlib.Data.List.Induction
import TreeStream.Module

/-!
# Manifests after their registrations

A manifest knows of each id the last registration and the number that it had among all
registrations, replaced ones included (`get?_registered`). As long as the numbers do not wrap, a
chunk name therefore belongs to one registration, and so to one id.
-/

namespace TreeStream

theorem ModuleMetadata.chunkName_inj {a b : ModuleMetadata} :
    a.chunkName = b.chunkName ↔ a.chunk = b.chunk := by
  refine ⟨fun h => ?_, fun h => by rw [chunkName, chunkName, h]⟩
  have hrepr : Nat.repr a.chunk.toNat = Nat.repr b.chunk.toNat :=
    (String.append_right_inj "client").mp h
  have hvalue := congrArg (fun s => Nat.ofDigitChars 10 s.toList 0) hrepr
  simp only [Nat.toList_repr, Nat.ofDigitChars_ten_toDigits] at hvalue
  exact UInt32.toNat_inj.mp hvalue

structure Registration where
  id : String
  path : String
  name : String

namespace Manifest

/-- The manifest after these registrations. -/
def registered (rs : List Registration) : Manifest :=
  rs.foldl (fun m r => m.register r.id r.path r.name) empty

theorem registered_append (rs : List Registration) (r : Registration) :
    registered (rs ++ [r]) = (registered rs).register r.id r.path r.name := by
  simp [registered]

/-- The registration at place `i` is the last one of its id. -/
structure LastOf (rs : List Registration) (id : String) (i : Nat) (r : Registration) : Prop where
  here : rs[i]? = some r
  id_eq : r.id = id
  later : ∀ j s, i < j → rs[j]? = some s → s.id ≠ id

theorem LastOf.lt {rs : List Registration} {id : String} {i : Nat} {r : Registration}
    (h : LastOf rs id i r) : i < rs.length :=
  (List.getElem?_eq_some_iff.mp h.here).1

theorem LastOf.mem {rs : List Registration} {id : String} {i : Nat} {r : Registration}
    (h : LastOf rs id i r) : r ∈ rs :=
  List.mem_of_getElem? h.here

theorem LastOf.here_of_prefix {earlier rs : List Registration} {id : String} {i : Nat}
    {r : Registration} (h : LastOf earlier id i r) (hp : earlier <+: rs) : rs[i]? = some r := by
  obtain ⟨later, rfl⟩ := hp
  rw [List.getElem?_append_left h.lt, h.here]

theorem getElem?_concat {rs : List Registration} {s t : Registration} {j : Nat} :
    (rs ++ [s])[j]? = some t ↔ rs[j]? = some t ∨ j = rs.length ∧ s = t := by
  rcases Nat.lt_trichotomy j rs.length with hj | rfl | hj
  · simp [List.getElem?_append_left hj, Nat.ne_of_lt hj]
  · simp
  · have hlength : (rs ++ [s]).length ≤ j := by
      rw [List.length_append, List.length_singleton]
      exact hj
    simp [List.getElem?_eq_none hlength, List.getElem?_eq_none (Nat.le_of_lt hj), Nat.ne_of_gt hj]

/-- A new registration is the last one of its id, and every other id keeps the one it had. -/
theorem lastOf_append {rs : List Registration} {s r : Registration} {id : String} {i : Nat} :
    LastOf (rs ++ [s]) id i r ↔
      if s.id = id then i = rs.length ∧ r = s else LastOf rs id i r := by
  have hnew : (rs ++ [s])[rs.length]? = some s := List.getElem?_concat_length
  split
  · next hs =>
    constructor
    · rintro ⟨here, -, later⟩
      rcases getElem?_concat.mp here with hold | ⟨rfl, rfl⟩
      · have hi : i < rs.length := (List.getElem?_eq_some_iff.mp hold).1
        exact absurd hs (later rs.length s hi hnew)
      · exact ⟨rfl, rfl⟩
    · rintro ⟨rfl, rfl⟩
      refine ⟨hnew, hs, fun j t hj ht => ?_⟩
      rcases getElem?_concat.mp ht with hold | ⟨rfl, -⟩
      · exact absurd (List.getElem?_eq_some_iff.mp hold).1 (Nat.lt_asymm hj)
      · exact absurd hj (Nat.lt_irrefl _)
  · next hs =>
    have hold : ∀ {j : Nat} {t : Registration}, t.id = id →
        ((rs ++ [s])[j]? = some t ↔ rs[j]? = some t) := by
      intro j t ht
      rw [getElem?_concat, or_iff_left]
      rintro ⟨-, rfl⟩
      exact hs ht
    constructor
    · rintro ⟨here, id_eq, later⟩
      exact ⟨(hold id_eq).mp here, id_eq, fun j t hj ht he => later j t hj ((hold he).mpr ht) he⟩
    · rintro ⟨here, id_eq, later⟩
      exact ⟨(hold id_eq).mpr here, id_eq, fun j t hj ht he => later j t hj ((hold he).mp ht) he⟩

theorem exists_lastOf {rs : List Registration} {s : Registration} (h : s ∈ rs) :
    ∃ i r, LastOf rs s.id i r := by
  induction rs using List.reverseRecOn with
  | nil => exact absurd h List.not_mem_nil
  | append_singleton rs t ih =>
    simp only [lastOf_append]
    by_cases ht : t.id = s.id
    · exact ⟨rs.length, t, by simp [ht]⟩
    · have hs : s ∈ rs := by
        rcases List.mem_append.mp h with hs | hs
        · exact hs
        · exact absurd (congrArg Registration.id (List.mem_singleton.mp hs)).symm ht
      obtain ⟨i, r, hr⟩ := ih hs
      exact ⟨i, r, by rwa [if_neg ht]⟩

/-- What a manifest keeps of a registration. -/
def metadataAt (i : Nat) (r : Registration) : ModuleMetadata :=
  ⟨r.path, UInt32.ofNat (i + 1), r.name⟩

theorem registrations_registered (rs : List Registration) :
    (registered rs).registrations = UInt32.ofNat rs.length := by
  induction rs using List.reverseRecOn with
  | nil => rfl
  | append_singleton rs s ih =>
    rw [registered_append, register, ih, List.length_append, UInt32.ofNat_add]
    rfl

/-- The entry of an id is its last registration under the number that it had. -/
theorem get?_registered {rs : List Registration} {id : String} {entry : ModuleMetadata} :
    (registered rs).entries.get? id = some entry ↔
      ∃ i r, LastOf rs id i r ∧ entry = metadataAt i r := by
  induction rs using List.reverseRecOn with
  | nil =>
    refine ⟨nofun, ?_⟩
    rintro ⟨i, r, h, -⟩
    exact absurd h.lt (Nat.not_lt_zero i)
  | append_singleton rs s ih =>
    rw [registered_append, register, Record.get?_insert, registrations_registered]
    simp only [lastOf_append, eq_comm (a := id)]
    split
    · simp [metadataAt, UInt32.ofNat_add, eq_comm]
    · exact ih

theorem lookup_eq_ok {m : Manifest} {ref : ModuleReference} {found : ModuleMetadata} :
    m.lookup ref = .ok found ↔ ∃ entry, m.entries.get? ref.id = some entry ∧
      found = { entry with name := ref.exports.head?.getD entry.name } := by
  unfold lookup
  cases m.entries.get? ref.id with
  | none => simp
  | some entry => simp [eq_comm]

theorem lookup_eq_error {m : Manifest} {ref : ModuleReference}
    (h : m.entries.get? ref.id = none) :
    m.lookup ref = .error (.moduleResolution
      ("Could not find the module \"" ++ ref.id ++ "\" in the bundler manifest.")) := by
  rw [lookup, h]

theorem lookup_registered {rs : List Registration} {ref : ModuleReference}
    {found : ModuleMetadata} :
    (registered rs).lookup ref = .ok found ↔ ∃ i r, LastOf rs ref.id i r ∧
      found = { metadataAt i r with name := ref.exports.head?.getD r.name } := by
  simp only [lookup_eq_ok, get?_registered]
  constructor
  · rintro ⟨_, ⟨i, r, h, rfl⟩, rfl⟩
    exact ⟨i, r, h, rfl⟩
  · rintro ⟨i, r, h, rfl⟩
    exact ⟨_, ⟨i, r, h, rfl⟩, rfl⟩

theorem toNat_chunkNumber {n i : Nat} (hn : n < UInt32.size) (hi : i < n) :
    (UInt32.ofNat (i + 1)).toNat = i + 1 :=
  UInt32.toNat_ofNat_of_lt' (Nat.lt_of_le_of_lt hi hn)

/-- The numbers of fewer than `2 ^ 32` registrations are distinct. -/
theorem chunkNumber_inj {n i j : Nat} (hn : n < UInt32.size) (hi : i < n) (hj : j < n)
    (h : UInt32.ofNat (i + 1) = UInt32.ofNat (j + 1)) : i = j := by
  have hnat := congrArg UInt32.toNat h
  rw [toNat_chunkNumber hn hi, toNat_chunkNumber hn hj] at hnat
  exact Nat.succ.inj hnat

/-- Of fewer than `2 ^ 32` registrations, whatever their ids, no two ids ever get one chunk name,
not even one after the other. An id that was registered resolves to the path and name of its last
registration and to the chunk of that one's number, with the first export of the reference in place
of the name if there is one; neither the path nor the other exports of the reference matter. An id
that was not registered is not found, and one more registration changes nothing for any other id. -/
theorem registrations_apart (rs : List Registration) (hn : rs.length < UInt32.size) :
    (∀ earlier later a b found found', earlier <+: rs → later <+: rs →
      (registered earlier).lookup a = .ok found → (registered later).lookup b = .ok found' →
        found.chunkName = found'.chunkName → a.id = b.id) ∧
    (∀ s ∈ rs, ∃ i r, LastOf rs s.id i r) ∧
    (∀ ref i r, LastOf rs ref.id i r →
      ((registered rs).lookup ref).map ModuleMetadata.toJson = .ok (.object
        [("id", .string r.path), ("chunks", .array [.string ("client" ++ Nat.repr (i + 1))]),
          ("name", .string (ref.exports.head?.getD r.name))])) ∧
    (∀ ref : ModuleReference, (∀ r ∈ rs, r.id ≠ ref.id) →
      (registered rs).lookup ref = .error (.moduleResolution
        ("Could not find the module \"" ++ ref.id ++ "\" in the bundler manifest."))) ∧
    ∀ r ref, ref.id ≠ r.id → (registered (rs ++ [r])).lookup ref = (registered rs).lookup ref := by
  refine ⟨?_, fun s => exists_lastOf, ?_, ?_, ?_⟩
  · intro earlier later a b found found' hearlier hlater ha hb hname
    obtain ⟨i, r, hr, rfl⟩ := lookup_registered.mp ha
    obtain ⟨j, s, hs, rfl⟩ := lookup_registered.mp hb
    have hchunk := ModuleMetadata.chunkName_inj.mp hname
    have hi : i < rs.length := Nat.lt_of_lt_of_le hr.lt hearlier.length_le
    have hj : j < rs.length := Nat.lt_of_lt_of_le hs.lt hlater.length_le
    obtain rfl : i = j := chunkNumber_inj hn hi hj hchunk
    obtain rfl : r = s := Option.some.inj
      ((hr.here_of_prefix hearlier).symm.trans (hs.here_of_prefix hlater))
    exact hr.id_eq.symm.trans hs.id_eq
  · intro ref i r h
    rw [lookup_registered.mpr ⟨i, r, h, rfl⟩]
    simp only [Except.map, ModuleMetadata.toJson, ModuleMetadata.chunkName, metadataAt,
      toNat_chunkNumber hn h.lt]
  · intro ref h
    refine lookup_eq_error (Option.eq_none_iff_forall_ne_some.mpr fun entry hentry => ?_)
    obtain ⟨i, r, hr, -⟩ := get?_registered.mp hentry
    exact h r hr.mem hr.id_eq
  · intro r ref h
    rw [registered_append]
    exact lookup_register_ne _ _ _ _ _ h

/-! ### One id registered twice -/

namespace Renewed

def calls : List Registration :=
  [⟨"Button", "./Button.js", "default"⟩, ⟨"Card", "./Card.js", "Card"⟩,
    ⟨"Button", "./Fancy.js", "default"⟩]

/-- The button under a path of its own and with two exports. -/
def button : ModuleReference := ⟨"Button", "./elsewhere.js", ["Primary", "Ghost"]⟩

def card : ModuleReference := ⟨"Card", "./Card.js", []⟩

def menu : ModuleReference := ⟨"Menu", "./Menu.js", []⟩

theorem last : LastOf calls button.id 2 ⟨"Button", "./Fancy.js", "default"⟩ := by
  refine ⟨rfl, rfl, fun j s hj hs => ?_⟩
  have hlt : j < 3 := (List.getElem?_eq_some_iff.mp hs).1
  omega

/-- The third registration counts, under the export of the reference, and the card never had the
chunk that the button had first. -/
theorem registrations_apart_renewed :
    calls.length < UInt32.size ∧ LastOf calls button.id 2 ⟨"Button", "./Fancy.js", "default"⟩ ∧
      ((registered calls).lookup button).map ModuleMetadata.toJson = .ok (.object
        [("id", .string "./Fancy.js"), ("chunks", .array [.string "client3"]),
          ("name", .string "Primary")]) ∧
      (∀ found found', (registered (calls.take 1)).lookup button = .ok found →
        (registered calls).lookup card = .ok found' → found.chunkName ≠ found'.chunkName) ∧
      (registered calls).lookup menu = .error (.moduleResolution
        "Could not find the module \"Menu\" in the bundler manifest.") ∧
      (registered (calls ++ [⟨"Menu", "./Menu.js", "Menu"⟩])).lookup card =
        (registered calls).lookup card := by
  have hn : calls.length < UInt32.size := by decide
  obtain ⟨hapart, -, hresolves, hmissing, hkeeps⟩ := registrations_apart calls hn
  refine ⟨hn, last, hresolves button 2 _ last, fun found found' h h' hname => ?_,
    hmissing menu (by decide), hkeeps _ card (by decide)⟩
  have hid := hapart _ _ button card found found' (calls.take_prefix 1) (List.prefix_refl calls)
    h h' hname
  exact absurd hid (by decide)

end Renewed

end Manifest
end TreeStream
