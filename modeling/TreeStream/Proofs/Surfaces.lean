import Mathlib.Data.List.Forall2
import TreeStream.Proofs.Walks

/-!
# What previews give away

Two values are alike if they show one surface: their kind, and a little more for plain data and for
named things. Two containers of one sort that agree on the surface of their first entries have one
preview, whatever else they hold (`preview_bounded`). The code of the two may be of different
types, so nothing that code is or would do can show. An opened entry shows a listing of its own, and
with the surface of its first entries also the sign that there are more of them
(`preview_overflows`).
-/

namespace TreeStream

variable {κ κ' : Type}

/-! ## Surfaces -/

/-- Values of one surface: of one kind, with the value, description or name that this kind shows,
and strings with the same first ten characters, which are all of both or of neither. -/
inductive Alike : Model κ → Model κ' → Prop where
  | undefined : Alike .undefined .undefined
  | null : Alike .null .null
  | bool (b : Bool) : Alike (.bool b) (.bool b)
  | number (d : Double) : Alike (.number d) (.number d)
  | string {s t : String} (start : s.toList.take 10 = t.toList.take 10)
    (more : 10 < s.length ↔ 10 < t.length) : Alike (.string s) (.string t)
  | bigInt (i : Int) : Alike (.bigInt i) (.bigInt i)
  | symbol (description : Option String) : Alike (.symbol description) (.symbol description)
  | function (name name' : Option String) (body : Closure κ (Model κ))
    (body' : Closure κ' (Model κ')) : Alike (.function name body) (.function name' body')
  | array (xs : List (Model κ)) (ys : List (Model κ')) : Alike (.array xs) (.array ys)
  | record (r : Record (Model κ)) (r' : Record (Model κ')) : Alike (.record r) (.record r')
  | instanceOf (className : String) (r : Record (Model κ)) (r' : Record (Model κ')) :
    Alike (.instanceOf className r) (.instanceOf className r')
  | element (e : Element κ (Model κ)) (e' : Element κ' (Model κ')) :
    Alike (.element e) (.element e')
  | serverBlock (b : ServerBlock κ (Model κ)) (b' : ServerBlock κ' (Model κ')) :
    Alike (.serverBlock b) (.serverBlock b')
  | marker (kind : Marker) : Alike (.marker kind) (.marker kind)
  | custom (typeName : String) (toModel : Closure κ (Model κ)) (toModel' : Closure κ' (Model κ')) :
    Alike (.custom typeName toModel) (.custom typeName toModel')

def indexed (xs : List (Model κ)) : List (String × Model κ) :=
  xs.zipIdx.map fun p => (Nat.repr p.2, p.1)

def Model.entries? : Model κ → Option (List (String × Model κ))
  | .array xs => some (indexed xs)
  | .record r => some r.entries
  | .instanceOf _ r => some r.entries
  | _ => none

def Container.entries? : Container κ → Option (List (String × Model κ))
  | .items xs => some (indexed xs)
  | .fields r => some r.entries
  | .whole (.array xs) => some (indexed xs)
  | .whole (.record r) => some r.entries
  | .whole _ => none

def Container.isArray : Container κ → Bool
  | .items _ => true
  | .whole (.array _) => true
  | _ => false

/-- The first six entries have the same keys and related values. -/
def FirstSix (R : String → Model κ → Model κ' → Prop) (es : List (String × Model κ))
    (fs : List (String × Model κ')) : Prop :=
  List.Forall₂ (fun p q => p.1 = q.1 ∧ R p.1 p.2 q.2) (es.take 6) (fs.take 6)

/-- Both have a seventh entry, or neither has. -/
def SameOverflow (es : List (String × Model κ)) (fs : List (String × Model κ')) : Prop :=
  6 < es.length ↔ 6 < fs.length

/-- If it is the entry under this key that is opened, its own entries are related. -/
def OpenedTo (R : List (String × Model κ) → List (String × Model κ') → Prop)
    (expanded : Option String) (key : String) (a : Model κ) (b : Model κ') : Prop :=
  expanded = some key → ∀ es fs, a.entries? = some es → b.entries? = some fs → R es fs

/-- The surface of an entry, and of an opened one also that of its own first six entries. -/
def SameSurface (expanded : Option String) (key : String) (a : Model κ) (b : Model κ') : Prop :=
  Alike a b ∧ OpenedTo (FirstSix fun _ => Alike) expanded key a b

namespace Container

/-- The containers agree on the surface of their first six entries and on whether there is a
seventh. -/
def Agree (expanded : Option String) (c : Container κ) (d : Container κ') : Prop :=
  ∃ es fs, c.entries? = some es ∧ d.entries? = some fs ∧
    FirstSix (SameSurface expanded) es fs ∧ SameOverflow es fs

/-- The opened entry has a seventh entry of its own in both containers, or in neither. -/
def OpenedAgree (expanded : Option String) (c : Container κ) (d : Container κ') : Prop :=
  ∃ es fs, c.entries? = some es ∧ d.entries? = some fs ∧
    FirstSix (OpenedTo SameOverflow expanded) es fs

end Container

namespace Preview

/-! ## Previews of surfaces -/

theorem ofString_congr {s t : String} (start : s.toList.take 10 = t.toList.take 10)
    (more : 10 < s.length ↔ 10 < t.length) : ofString s = ofString t := by
  by_cases hs : 10 < s.length
  · have ht := more.mp hs
    simp only [ofString, maxChars, Nat.not_le.mpr hs, Nat.not_le.mpr ht, if_false, start]
  · have ht : ¬ 10 < t.length := fun ht => hs (more.mpr ht)
    have hall : s.toList = t.toList := by
      rwa [List.take_of_length_le (Nat.not_lt.mp hs), List.take_of_length_le (Nat.not_lt.mp ht)]
        at start
    rw [String.toList_inj.mp hall]

theorem value_congr {a : Model κ} {b : Model κ'} (h : Alike a b) : value a = value b := by
  cases h with
  | string start more => exact ofString_congr start more
  | _ => rfl

theorem listing_map {α β : Type} (f : β → String) (g : α → β) (xs : List α) :
    listing f (xs.map g) = listing (fun x => f (g x)) xs := by
  simp only [listing, ← List.map_take, List.map_map, List.length_map, Function.comp_def]

/-- Entries with the same keys give one listing if each pair gives one text. -/
theorem listing_congr {f : String × Model κ → String} {g : String × Model κ' → String}
    {es : List (String × Model κ)} {fs : List (String × Model κ')}
    {R : String → Model κ → Model κ' → Prop} (h : FirstSix R es fs) (ho : SameOverflow es fs)
    (htext : ∀ k a b, R k a b → f (k, a) = g (k, b)) : listing f es = listing g fs := by
  have hall : List.Forall₂ (fun p q => f p = g q) (es.take 6) (fs.take 6) := by
    refine h.imp ?_
    rintro ⟨k, a⟩ ⟨_, b⟩ ⟨rfl, hab⟩
    exact htext k a b hab
  have hshown : (es.take 6).map f = (fs.take 6).map g := by
    rwa [← List.forall₂_eq_eq_eq, List.forall₂_map_left_iff, List.forall₂_map_right_iff]
  by_cases hes : 6 < es.length
  · simp only [listing, maxEntries, hshown, hes, ho.mp hes, if_true]
  · simp only [listing, maxEntries, hshown, hes, mt ho.mpr hes, if_false]

theorem itemsWith_value (xs : List (Model κ)) :
    itemsWith value xs = "[" ++ listing (fun p => value p.2) (indexed xs) ++ "]" := by
  have hvalues : (indexed xs).map Prod.snd = xs := by simp [indexed, Function.comp_def]
  conv_lhs => rw [← hvalues]
  rw [itemsWith, listing_map]

theorem items_eq (expanded : Option String) (xs : List (Model κ)) :
    items expanded xs =
      "[" ++ listing (fun p => entry (expanded == some p.1) p.2) (indexed xs) ++ "]" := by
  rw [items, itemsWith, indexed, listing_map]

/-- An opened value shows its own listing, in which nothing is opened. -/
theorem opened_congr {a : Model κ} {b : Model κ'} (h : Alike a b)
    (hentries : ∀ es fs, a.entries? = some es → b.entries? = some fs →
      FirstSix (fun _ => Alike) es fs ∧ SameOverflow es fs) : opened a = opened b := by
  have hitems : ∀ {es : List (String × Model κ)} {fs : List (String × Model κ')},
      a.entries? = some es → b.entries? = some fs →
        listing (fun p => value p.2) es = listing (fun p => value p.2) fs := by
    intro es fs hes hfs
    obtain ⟨hsix, ho⟩ := hentries es fs hes hfs
    exact listing_congr hsix ho fun k a b hab => value_congr hab
  have hfields : ∀ {es : List (String × Model κ)} {fs : List (String × Model κ')},
      a.entries? = some es → b.entries? = some fs →
        listing (fun p => key p.1 ++ ": " ++ value p.2) es =
          listing (fun p => key p.1 ++ ": " ++ value p.2) fs := by
    intro es fs hes hfs
    obtain ⟨hsix, ho⟩ := hentries es fs hes hfs
    exact listing_congr hsix ho fun k a b hab => congrArg _ (value_congr hab)
  cases h with
  | array xs ys => rw [opened, opened, itemsWith_value, itemsWith_value, hitems rfl rfl]
  | record r r' => rw [opened, opened, fieldsWith, fieldsWith, hfields rfl rfl]
  | instanceOf className r r' => rw [opened, opened, fieldsWith, fieldsWith, hfields rfl rfl]
  | string start more => exact ofString_congr start more
  | _ => rfl

theorem entry_congr {expanded : Option String} {k : String} {a : Model κ} {b : Model κ'}
    (h : SameSurface expanded k a b) (ho : OpenedTo SameOverflow expanded k a b) :
    entry (expanded == some k) a = entry (expanded == some k) b := by
  by_cases he : expanded = some k
  · rw [beq_iff_eq.mpr he]
    exact opened_congr h.1 fun es fs hes hfs => ⟨h.2 he es fs hes hfs, ho he es fs hes hfs⟩
  · rw [beq_eq_false_iff_ne.mpr he]
    exact value_congr h.1

theorem container_eq {expanded : Option String} {c : Container κ} {es : List (String × Model κ)}
    (h : c.entries? = some es) :
    container c expanded =
      if c.isArray then "[" ++ listing (fun p => entry (expanded == some p.1) p.2) es ++ "]"
      else "\x7b" ++ listing (fun p => key p.1 ++ ": " ++ entry (expanded == some p.1) p.2) es ++
        "\x7d" := by
  unfold Container.entries? at h
  split at h
  · cases h
    exact items_eq expanded _
  · cases h
    rfl
  · cases h
    exact items_eq expanded _
  · cases h
    rfl
  · cases h

theorem firstSix_and {R S : String → Model κ → Model κ' → Prop} {es : List (String × Model κ)}
    {fs : List (String × Model κ')} (hR : FirstSix R es fs) (hS : FirstSix S es fs) :
    FirstSix (fun k a b => R k a b ∧ S k a b) es fs := by
  have hboth := List.forall₂_iff_get.mp hR
  refine List.forall₂_iff_get.mpr ⟨hboth.1, fun i hes hfs => ?_⟩
  obtain ⟨hkey, hr⟩ := hboth.2 i hes hfs
  exact ⟨hkey, hr, ((List.forall₂_iff_get.mp hS).2 i hes hfs).2⟩

/-! ## Nothing is run -/

/-- The refusals of the value at a key, with a preview of its container: of a value that no client
takes, and of a second custom value. -/
inductive Refused (parent : Container κ) (key : String) : Bool → Model κ → RenderError → Prop where
  | leaf {substituted : Bool} {value : Model κ} {e : RenderError}
    (h : Serializer.leaf parent key value = .error e) : Refused parent key substituted value e
  | secondCustom (typeName : String) (toModel : Closure κ (Model κ)) :
    Refused parent key true (.custom typeName toModel)
      (Refusal.secondCustom parent key typeName)

/-- A refusal asks for no effect, neither of user code nor of the context. -/
theorem Refused.walk {parent : Container κ} {key : String} {substituted : Bool} {value : Model κ}
    {e : RenderError} (h : Refused parent key substituted value e) (strict : Bool) (n : Nat) :
    (Serializer.position Walk.code (Walk.context strict) (n + 1) parent key substituted value).run =
      .done (.error e) := by
  cases h with
  | secondCustom typeName toModel => rfl
  | leaf h =>
    cases value with
    | array | record | serverBlock | element | custom => cases h
    | _ => exact congrArg Walk.done h

/-- Two arrays or two records, each as such or as a whole value, have one preview if they agree on
the surface of their first six entries, on whether there is a seventh, and on whether the opened
entry has a seventh entry of its own. The code in them may be anything, and none of it runs: a
refusal that shows the preview is all that happens at its place. -/
theorem preview_bounded (expanded : Option String) (c : Container κ) (d : Container κ')
    (hsort : c.isArray = d.isArray) (h : c.Agree expanded d) (ho : c.OpenedAgree expanded d) :
    container c expanded = container d expanded ∧
      ∀ key substituted value e, Refused c key substituted value e → ∀ strict n,
        (Serializer.position Walk.code (Walk.context strict) (n + 1) c key substituted value).run =
          .done (.error e) := by
  refine ⟨?_, fun key substituted value e hrefused => hrefused.walk⟩
  obtain ⟨es, fs, hes, hfs, hsix, hover⟩ := h
  obtain ⟨es', fs', hes', hfs', hinside⟩ := ho
  obtain rfl := Option.some.inj (hes.symm.trans hes')
  obtain rfl := Option.some.inj (hfs.symm.trans hfs')
  have hall := firstSix_and hsix hinside
  have hitems : listing (fun p => entry (expanded == some p.1) p.2) es =
      listing (fun p => entry (expanded == some p.1) p.2) fs :=
    listing_congr hall hover fun k a b hab => entry_congr hab.1 hab.2
  have hfields : listing (fun p => key p.1 ++ ": " ++ entry (expanded == some p.1) p.2) es =
      listing (fun p => key p.1 ++ ": " ++ entry (expanded == some p.1) p.2) fs :=
    listing_congr hall hover fun k a b hab => congrArg _ (entry_congr hab.1 hab.2)
  rw [container_eq hes, container_eq hfs, hsort, hitems, hfields]

/-! ### Opened entries -/

namespace Opened

/-- A container whose first entry can be opened; most of what is in it cannot be seen. -/
def box {κ : Type} (text : String) (hidden : List (Model κ)) (run : Closure κ (Model κ)) :
    Record (Model κ) :=
  .ofList [("a", .instanceOf "Box" (.ofList [("text", .string text), ("deep", .array hidden)])),
    ("b", .custom "Object" run)]

def shown : Container Unit := .fields (box "0123456789, and one" [.null] ⟨(), .empty⟩)

def other : Container Bool :=
  .whole (.record (box "0123456789, and two" [] ⟨true, .ofList [("x", .undefined)]⟩))

theorem agree : shown.Agree (some "a") other := by
  refine ⟨_, _, rfl, rfl, .cons ⟨rfl, .instanceOf _ _ _, ?_⟩ (.cons ⟨rfl, .custom _ _ _, ?_⟩ .nil),
    Iff.rfl⟩
  · rintro - es fs ⟨⟩ ⟨⟩
    exact .cons ⟨rfl, .string (by decide) (by decide)⟩ (.cons ⟨rfl, .array _ _⟩ .nil)
  · exact fun h => absurd h (by decide)

theorem openedAgree : shown.OpenedAgree (some "a") other := by
  refine ⟨_, _, rfl, rfl, .cons ⟨rfl, ?_⟩ (.cons ⟨rfl, ?_⟩ .nil)⟩
  · rintro - es fs ⟨⟩ ⟨⟩
    exact Iff.rfl
  · exact fun h => absurd h (by decide)

/-- Neither the end of the text nor what lies deeper shows, and the refusal runs nothing. -/
theorem preview_bounded_box :
    shown.isArray = other.isArray ∧ shown.Agree (some "a") other ∧
      shown.OpenedAgree (some "a") other ∧
      container other (some "a") =
        "\x7ba: \x7btext: \"0123456789...\", deep: [...]\x7d, b: \x7b...\x7d\x7d" ∧
      (Serializer.position Walk.code (Walk.context true) 1 shown "a" false
        (.instanceOf "Box" .empty)).run = .done (.error (Refusal.instanceOf shown "a" "Box")) := by
  obtain ⟨hsame, hrefused⟩ := preview_bounded (some "a") shown other rfl agree openedAgree
  refine ⟨rfl, agree, openedAgree, hsame.symm.trans ?_, hrefused "a" false _ _ (.leaf rfl) true 0⟩
  decide +kernel

def nulls (n : Nat) : Container Unit :=
  .fields (.ofList
    [("a", .record (.ofList ((List.range n).map fun i => ("k" ++ Nat.repr i, .null))))])

/-- The surface of first entries is not all that shows. An array and a record differ in their
brackets, and of an opened entry it shows whether there are more than six. -/
theorem preview_overflows :
    ((.items [] : Container Unit).Agree none (.fields .empty : Container Unit) ∧
      container (.items [] : Container Unit) none ≠
        container (.fields .empty : Container Unit) none) ∧
    (nulls 6).isArray = (nulls 7).isArray ∧ (nulls 6).Agree (some "a") (nulls 7) ∧
      container (nulls 6) (some "a") ≠ container (nulls 7) (some "a") := by
  refine ⟨⟨⟨_, _, rfl, rfl, .nil, Iff.rfl⟩, by decide +kernel⟩, rfl, ?_, by decide +kernel⟩
  refine ⟨_, _, rfl, rfl, .cons ⟨rfl, .record _ _, ?_⟩ .nil, Iff.rfl⟩
  rintro - es fs ⟨⟩ ⟨⟩
  have hnull : ∀ k : String, k = k ∧ Alike (.null : Model Unit) (.null : Model Unit) :=
    fun k => ⟨rfl, .null⟩
  exact .cons (hnull _) (.cons (hnull _) (.cons (hnull _) (.cons (hnull _) (.cons (hnull _)
    (.cons (hnull _) .nil)))))

end Opened

end Preview
end TreeStream
