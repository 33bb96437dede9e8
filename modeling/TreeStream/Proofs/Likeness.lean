import Mathlib.Data.List.Forall2
import Mathlib.Data.List.Zip
import TreeStream.Serializer.Basic

/-!
# Models that are alike up to wrappers

A wrapper renders as its children, and so does a memo of one. Two models are alike if one becomes
the other by putting values that the serializer comes to into such elements, or by taking them out:
items, fields, props of tags and of client blocks, and children of wrappers. What a component is
given is the same on both sides, since a component could look into it.
-/

namespace TreeStream

variable {κ μ : Type}

namespace Renderable

/-- An element that asks for this renders as its children. -/
def passes : Renderable κ μ → Bool
  | wrapper _ => true
  | memo inner => inner.passes
  | _ => false

/-- An element that asks for this renders as itself, with its props. -/
def isHost : Renderable κ μ → Bool
  | host _ => true
  | serverBlock _ => true
  | memo inner => inner.isHost
  | _ => false

/-- What an element renders as that asks for a tag or a client block. -/
def tuple (props : Props κ) : Option String → Renderable κ (Model κ) → Model κ
  | key, host tag => Serializer.elementTuple (.string tag) key props
  | key, serverBlock block => Serializer.elementTuple (.serverBlock block) key props
  | _, memo inner => tuple props none inner
  | _, _ => .undefined

end Renderable

def Element.content (e : Element κ (Model κ)) : Model κ := e.children?.getD .undefined

/-- With `wraps`, values may be in wrappers on either side. -/
inductive Model.Alike (wraps : Bool) : Model κ → Model κ → Prop
  | refl (v : Model κ) : Alike wraps v v
  | inside {e : Element κ (Model κ)} {v : Model κ} (hw : wraps = true)
    (he : e.renderable.passes = true) (h : Alike wraps e.content v) : Alike wraps (.element e) v
  | outside {e : Element κ (Model κ)} {v : Model κ} (hw : wraps = true)
    (he : e.renderable.passes = true) (h : Alike wraps v e.content) : Alike wraps v (.element e)
  | array {xs xs' : List (Model κ)} (hlength : xs.length = xs'.length)
    (h : ∀ p ∈ xs.zip xs', Alike wraps p.1 p.2) : Alike wraps (.array xs) (.array xs')
  | record {fs fs' : Record (Model κ)} (hkeys : fs.keys = fs'.keys)
    (h : ∀ p ∈ fs.entries.zip fs'.entries, Alike wraps p.1.2 p.2.2) :
    Alike wraps (.record fs) (.record fs')
  | host {x : Renderable κ (Model κ)} {key : Option String} {props props' : Props κ}
    (hx : x.isHost = true) (hkeys : props.keys = props'.keys)
    (h : ∀ p ∈ props.entries.zip props'.entries, Alike wraps p.1.2 p.2.2) :
    Alike wraps (.element { renderable := x, key := key, props := props })
      (.element { renderable := x, key := key, props := props' })

def Record.Alike (wraps : Bool) : List (String × Model κ) → List (String × Model κ) → Prop :=
  List.Forall₂ fun p p' => p.1 = p'.1 ∧ Model.Alike wraps p.2 p'.2

namespace Model.Alike

variable {wraps : Bool}

theorem items {xs xs' : List (Model κ)} (hlength : xs.length = xs'.length)
    (h : ∀ p ∈ xs.zip xs', Alike wraps p.1 p.2) : List.Forall₂ (Alike wraps) xs xs' :=
  List.forall₂_iff_zip.mpr ⟨hlength, fun hp => h _ hp⟩

end Model.Alike

namespace Record

variable {wraps : Bool}

theorem Alike.refl (es : List (String × Model κ)) : Alike wraps es es :=
  List.forall₂_same.mpr fun _ _ => ⟨rfl, .refl _⟩

theorem Alike.entries {fs fs' : Record (Model κ)} (hkeys : fs.keys = fs'.keys)
    (h : ∀ p ∈ fs.entries.zip fs'.entries, Model.Alike wraps p.1.2 p.2.2) :
    Alike wraps fs.entries fs'.entries := by
  have hlength : fs.entries.length = fs'.entries.length := by
    simpa [← keys_entries] using congrArg List.length hkeys
  refine List.forall₂_iff_zip.mpr ⟨hlength, fun {p p'} hp => ⟨?_, h _ hp⟩⟩
  obtain ⟨i, hi, hget⟩ := List.mem_iff_getElem.mp hp
  rw [List.getElem_zip, Prod.mk.injEq] at hget
  obtain ⟨rfl, rfl⟩ := hget
  simp only [List.length_zip] at hi
  have hkey : (fs.entries.map Prod.fst)[i]? = (fs'.entries.map Prod.fst)[i]? := by
    rw [keys_entries, keys_entries, hkeys]
  have hi' : i < fs'.entries.length := by omega
  rw [List.getElem?_map, List.getElem?_map, List.getElem?_eq_getElem (by omega),
    List.getElem?_eq_getElem hi'] at hkey
  exact Option.some.inj hkey

end Record

namespace Model.Alike

variable {wraps : Bool} {v v' : Model κ}

theorem eq_of_not (h : Alike false v v') : v = v' := by
  have hfields : ∀ {fs fs' : Record (Model κ)}, fs.keys = fs'.keys →
      (∀ p ∈ fs.entries.zip fs'.entries, p.1.2 = p.2.2) → fs = fs' := by
    intro fs fs' hkeys h
    have halike : Record.Alike false fs.entries fs'.entries :=
      .entries hkeys fun p hp => h p hp ▸ .refl _
    refine Record.ext (List.forall₂_eq_eq_eq ▸ List.forall₂_iff_zip.mpr ?_)
    refine ⟨halike.length_eq, fun {p p'} hp => ?_⟩
    exact Prod.ext (List.forall₂_zip halike hp).1 (h _ hp)
  induction h with
  | refl => rfl
  | inside hw => cases hw
  | outside hw => cases hw
  | array hlength _ ih =>
    congr 1
    exact List.forall₂_eq_eq_eq ▸ List.forall₂_iff_zip.mpr ⟨hlength, fun hp => ih _ hp⟩
  | record hkeys _ ih => rw [hfields hkeys ih]
  | host _ hkeys _ ih => rw [hfields hkeys ih]

/-- What an element renders as that asks for a tag or a client block: a tuple around its props. -/
theorem tuple {x : Renderable κ (Model κ)} {props props' : Props κ}
    (hkeys : props.keys = props'.keys)
    (h : ∀ p ∈ props.entries.zip props'.entries, Alike wraps p.1.2 p.2.2) (key : Option String) :
    Alike wraps (x.tuple props key) (x.tuple props' key) := by
  have hprops : Alike wraps (.record props) (.record props') := .record hkeys h
  have helement : ∀ type key, Alike wraps (Serializer.elementTuple type key props)
      (Serializer.elementTuple type key props') := by
    intro type key
    refine .array rfl fun p hp => ?_
    simp only [List.zip_cons_cons, List.zip_nil_right, List.mem_cons, List.not_mem_nil, or_false]
      at hp
    rcases hp with rfl | rfl | rfl | rfl
    · exact .refl _
    · exact .refl _
    · exact .refl _
    · exact hprops
  induction x generalizing key with
  | host => exact helement _ key
  | serverBlock => exact helement _ key
  | memo inner ih => exact ih none
  | _ => exact .refl _

end Model.Alike

inductive Resolution.Alike (wraps : Bool) :
    Resolution κ (Model κ) → Resolution κ (Model κ) → Prop
  | ready {v v' : Model κ} (h : Model.Alike wraps v v') : Alike wraps (.ready v) (.ready v')
  | suspended (t : Thenable κ) : Alike wraps (.suspended t) (.suspended t)
  | failed (e : RenderError) : Alike wraps (.failed e) (.failed e)

theorem Resolution.Alike.refl {wraps : Bool} :
    ∀ outcome : Resolution κ (Model κ), Alike wraps outcome outcome
  | .ready v => .ready (.refl v)
  | .suspended t => .suspended t
  | .failed e => .failed e

inductive Query.Alike (wraps : Bool) : Query κ → Query κ → Prop
  | model {v v' : Model κ} (h : Model.Alike wraps v v') : Alike wraps (.model v) (.model v')
  | load (code : Closure κ (Model κ)) : Alike wraps (.load code) (.load code)

theorem Query.Alike.refl {wraps : Bool} : ∀ query : Query κ, Alike wraps query query
  | .model v => .model (.refl v)
  | .load code => .load code

theorem Query.Alike.eq_of_not {query query' : Query κ} (h : Alike false query query') :
    query = query' := by
  cases h with
  | model hv => rw [hv.eq_of_not]
  | load => rfl

inductive RenderError.IsRefusal (κ : Type) : RenderError → Prop
  | secondCustom (parent : Container κ) (key typeName : String) :
    IsRefusal κ (Refusal.secondCustom parent key typeName)
  | function (parent : Container κ) (key : String) (name : Option String) :
    IsRefusal κ (Refusal.function parent key name)
  | symbol (parent : Container κ) (key : String) (description : Option String) :
    IsRefusal κ (Refusal.symbol parent key description)
  | bigInt (parent : Container κ) (key : String) (value : Int) :
    IsRefusal κ (Refusal.bigInt parent key value)
  | instanceOf (parent : Container κ) (key className : String) :
    IsRefusal κ (Refusal.instanceOf parent key className)

theorem RenderError.IsRefusal.exists_reason {e : RenderError} (h : e.IsRefusal κ) :
    ∃ reason, e = .notSerializable reason := by
  cases h with
  | secondCustom => exact ⟨_, rfl⟩
  | function parent key name =>
    unfold Refusal.function
    split <;> exact ⟨_, rfl⟩
  | symbol => exact ⟨_, rfl⟩
  | bigInt => exact ⟨_, rfl⟩
  | instanceOf parent key className =>
    unfold Refusal.instanceOf
    split <;> exact ⟨_, rfl⟩

/-- Results that are alike, or the same error. With wrappers, two refusals may show containers that
are only alike. -/
inductive Result.Alike (κ : Type) (wraps : Bool) {α β : Type} (R : α → β → Prop) :
    Except RenderError α → Except RenderError β → Prop
  | ok {a : α} {b : β} (h : R a b) : Alike κ wraps R (.ok a) (.ok b)
  | error (e : RenderError) : Alike κ wraps R (.error e) (.error e)
  | refusal {e e' : RenderError} (hw : wraps = true) (h : e.IsRefusal κ) (h' : e'.IsRefusal κ) :
    Alike κ wraps R (.error e) (.error e')

theorem Result.Alike.refl {wraps : Bool} {α : Type} :
    ∀ result : Except RenderError α, Alike κ wraps Eq result result
  | .ok _ => .ok rfl
  | .error e => .error e

end TreeStream
