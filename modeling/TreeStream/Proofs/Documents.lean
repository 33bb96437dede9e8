import Mathlib.Data.List.Basic
import TreeStream.Proofs.Walks

/-!
# Documents

What a walk sees of a model is a document. Its places are the values at the keys of containers and
the two slots of each client block; a place is visited with some effects, turns out to be one of a
few things (`Stop`), and its children are visited in turn until one of them is refused. So the tree
of visits says, without a word about how the serializer goes on or breaks off, which effects happen
in which order, which refusal is reported, and what the JSON of the whole is.
-/

namespace TreeStream

open Serializer

variable {κ : Type}

/-! ## One place -/

/-- The value at a key of a container, or a slot of a client block. -/
inductive Place (κ : Type) where
  | position (parent : Container κ) (key : String) (value : Model κ)
  | module (module : ModuleReference)
  | data (load : Closure κ (Model κ))

/-- What a place turns out to be. A place that is written has no children. -/
inductive Stop (κ : Type) where
  | refused (error : RenderError)
  | written (json : Option Json)
  | items (items : List (Model κ))
  | fields (fields : Record (Model κ))
  | block (block : ServerBlock κ (Model κ))

namespace Stop

def places : Stop κ → List (Place κ)
  | refused _ => []
  | written _ => []
  | items xs => xs.zipIdx.map fun p => .position (.items xs) (Nat.repr p.2) p.1
  | fields r => r.entries.map fun p => .position (.fields r) p.1 p.2
  | block b => [.module b.module, .data b.load]

def refusal? : Stop κ → Option RenderError
  | refused e => some e
  | _ => none

/-- The JSON of a place, given that of its children. An undefined item is null; an undefined field
is left out, and the others stand as they come. -/
def json : Stop κ → List (Option Json) → Option Json
  | refused _, _ => none
  | written j, _ => j
  | items _, js => some (.array (js.map orNull))
  | fields r, js => some (.object ((r.entries.zip js).filterMap fun p => p.2.map fun j => (p.1.1, j)))
  | block _, js => some (.array (.string RowToken.blockMark :: js.map orNull))

end Stop

/-- One layer of an element, with the effect it takes. -/
inductive Renders (props : Props κ) :
    Option String → Renderable κ (Model κ) → List (Deed κ) → Resolution κ (Model κ) → Prop
  | function {key} (name : String) (code : Closure κ (Model κ)) (outcome : Resolution κ (Model κ)) :
    Renders props key (.function name code) [⟨.render code props none, outcome⟩] outcome
  | forwardRef {key} (name : String) (code : Closure κ (Model κ))
    (outcome : Resolution κ (Model κ)) :
    Renders props key (.forwardRef name code) [⟨.render code props none, outcome⟩] outcome
  | host {key} (tag : String) :
    Renders props key (.host tag) [] (.ready (elementTuple (.string tag) key props))
  | serverBlock {key} (block : ServerBlock κ (Model κ)) :
    Renders props key (.serverBlock block) []
      (.ready (elementTuple (.serverBlock block) key props))
  | wrapper {key} (kind : Wrapper) :
    Renders props key (.wrapper kind) [] (.ready ((props.get? childrenKey).getD .undefined))
  | memo {key inner ds outcome} (h : Renders props none inner ds outcome) :
    Renders props key (.memo inner) ds outcome
  | lazy {key} : Renders props key .lazy [] (.failed (.unsupportedType "Lazy"))
  | provider {key} (name : String) :
    Renders props key (.provider name) [] (.failed (.unsupportedType (name ++ ".Provider")))
  | context {key} (name : String) :
    Renders props key (.context name) [] (.failed (.unsupportedType (name ++ ".Consumer")))

/-- What a value that is neither an element nor custom turns out to be. -/
inductive Ends (parent : Container κ) (key : String) : Model κ → Stop κ → Prop
  | undefined : Ends parent key .undefined (.written none)
  | null : Ends parent key .null (.written (some .null))
  | bool (b : Bool) : Ends parent key (.bool b) (.written (some (.bool b)))
  | number (d : Double) : Ends parent key (.number d) (.written (some (ofNumber d)))
  | string (s : String) :
    Ends parent key (.string s) (.written (some (.string (RowToken.escape s))))
  | elementMark :
    Ends parent key (.marker .element) (.written (some (.string RowToken.elementMark)))
  | blockMark :
    Ends parent key (.marker .serverBlock) (.written (some (.string RowToken.blockMark)))
  | array (items : List (Model κ)) : Ends parent key (.array items) (.items items)
  | record (fields : Record (Model κ)) : Ends parent key (.record fields) (.fields fields)
  | serverBlock (block : ServerBlock κ (Model κ)) :
    Ends parent key (.serverBlock block) (.block block)
  | function (name : Option String) (body : Closure κ (Model κ)) :
    Ends parent key (.function name body) (.refused (Refusal.function parent key name))
  | symbol (description : Option String) :
    Ends parent key (.symbol description) (.refused (Refusal.symbol parent key description))
  | bigInt (value : Int) :
    Ends parent key (.bigInt value) (.refused (Refusal.bigInt parent key value))
  | instanceOf (className : String) (fields : Record (Model κ)) :
    Ends parent key (.instanceOf className fields)
      (.refused (Refusal.instanceOf parent key className))
  | lazyMark : Ends parent key (.marker .lazy) (.refused .unsupportedBlock)
  | unknownMark : Ends parent key (.marker .block) (.refused .unsupportedBlock)

/-- Elements are replaced by what they render as, and a custom value by its model, but only once:
then it turns out what stands there. An element that has to wait is written as a reference. -/
inductive Reaches (strict : Bool) (parent : Container κ) (key : String) :
    Bool → Model κ → List (Deed κ) → Stop κ → Prop
  | rest {substituted value stop} (h : Ends parent key value stop) :
    Reaches strict parent key substituted value [] stop
  | layer {substituted ds ds' stop next} {e : Element κ (Model κ)}
    (h : Renders e.props e.key e.renderable ds (.ready next))
    (hs : Reaches strict parent key substituted next ds' stop) :
    Reaches strict parent key substituted (.element e) (ds ++ ds') stop
  | failure {substituted ds err} {e : Element κ (Model κ)}
    (h : Renders e.props e.key e.renderable ds (.failed err)) :
    Reaches strict parent key substituted (.element e) ds (.refused err)
  | deferral {substituted ds thenable} {e : Element κ (Model κ)}
    (h : Renders e.props e.key e.renderable ds (.suspended thenable)) (id : RowId) :
    Reaches strict parent key substituted (.element e)
      (ds ++ [⟨.suspend (.model (.element e)) thenable, id⟩]) (.written (some (referenceTo id)))
  | custom {typeName code ds stop} (next : Model κ)
    (hs : Reaches strict parent key true next ds stop) :
    Reaches strict parent key false (.custom typeName code)
      ((if strict then [⟨.warn (Refusal.customWarning parent key), ()⟩] else []) ++
        ⟨.toModel code, next⟩ :: ds) stop
  | secondCustom {typeName code} :
    Reaches strict parent key true (.custom typeName code) []
      (.refused (Refusal.secondCustom parent key typeName))

/-- What happens at a place until it turns out what it is. Metadata that is missing and data that
fails or has to wait leave a reference to another row. -/
inductive Arrives (strict : Bool) : Place κ → List (Deed κ) → Stop κ → Prop
  | position {parent key value ds stop} (h : Reaches strict parent key false value ds stop) :
    Arrives strict (.position parent key value) ds stop
  | found {m json ds stop}
    (h : Reaches strict (.whole (.ofJson json)) "1" false (.ofJson json) ds stop) :
    Arrives strict (.module m) (⟨.metadata m, .ok json⟩ :: ds) stop
  | missing (m : ModuleReference) (err : RenderError) (id : RowId) :
    Arrives strict (.module m) [⟨.metadata m, .error err⟩, ⟨.emitError err, id⟩]
      (.written (some (referenceTo id)))
  | loaded {load value ds stop} (h : Reaches strict (.whole value) "2" false value ds stop) :
    Arrives strict (.data load) (⟨.load load, .ready value⟩ :: ds) stop
  | awaited (load : Closure κ (Model κ)) (thenable : Thenable κ) (id : RowId) :
    Arrives strict (.data load)
      [⟨.load load, .suspended thenable⟩, ⟨.suspend (.load load) thenable, id⟩]
      (.written (some (referenceTo id)))
  | failed (load : Closure κ (Model κ)) (err : RenderError) (id : RowId) :
    Arrives strict (.data load) [⟨.load load, .failed err⟩, ⟨.emitError err, id⟩]
      (.written (some (referenceTo id)))

/-! ## The tree of visits -/

/-- A place of a document with the effects of its visit, what it turned out to be, and its
children. -/
inductive Site (κ : Type) where
  | unvisited
  | visited (place : Place κ) (deeds : List (Deed κ)) (stop : Stop κ) (children : List (Site κ))

/-- A visit, with the path that leads there from the top. -/
structure Arrival (κ : Type) where
  path : List Nat
  place : Place κ
  deeds : List (Deed κ)
  stop : Stop κ

def Arrival.under (i : Nat) (v : Arrival κ) : Arrival κ := { v with path := i :: v.path }

namespace Site

mutual

/-- The visits, each place before its children and one child before the next. -/
def visits : Site κ → List (Arrival κ)
  | unvisited => []
  | visited place deeds stop children => ⟨[], place, deeds, stop⟩ :: visitsFrom 0 children

def visitsFrom : Nat → List (Site κ) → List (Arrival κ)
  | _, [] => []
  | i, s :: ss => s.visits.map (Arrival.under i) ++ visitsFrom (i + 1) ss

end

mutual

def json : Site κ → Option Json
  | unvisited => none
  | visited _ _ stop children => stop.json (jsons children)

def jsons : List (Site κ) → List (Option Json)
  | [] => []
  | s :: ss => s.json :: jsons ss

end

def deeds (s : Site κ) : List (Deed κ) := s.visits.flatMap Arrival.deeds

def refusal? (s : Site κ) : Option RenderError := s.visits.findSome? fun v => v.stop.refusal?

theorem jsons_eq_map (ss : List (Site κ)) : jsons ss = ss.map json := by
  induction ss with
  | nil => rfl
  | cons s ss ih => rw [jsons, ih, List.map_cons]

@[simp] theorem json_visited (place : Place κ) (ds : List (Deed κ)) (stop : Stop κ)
    (children : List (Site κ)) :
    (visited place ds stop children).json = stop.json (children.map json) := by
  rw [json, jsons_eq_map]

@[simp] theorem deeds_unvisited : (unvisited : Site κ).deeds = [] := rfl

theorem flatMap_visitsFrom (i : Nat) (ss : List (Site κ)) :
    (visitsFrom i ss).flatMap Arrival.deeds = ss.flatMap deeds := by
  induction ss generalizing i with
  | nil => rfl
  | cons s ss ih => simp [visitsFrom, ih, List.flatMap_map, Arrival.under, deeds]

@[simp] theorem deeds_visited (place : Place κ) (ds : List (Deed κ)) (stop : Stop κ)
    (children : List (Site κ)) :
    (visited place ds stop children).deeds = ds ++ children.flatMap deeds := by
  rw [deeds, visits, List.flatMap_cons, flatMap_visitsFrom]

theorem findSome?_visitsFrom (i : Nat) (ss : List (Site κ)) :
    (visitsFrom i ss).findSome? (fun v => v.stop.refusal?) = ss.findSome? refusal? := by
  induction ss generalizing i with
  | nil => rfl
  | cons s ss ih =>
    rw [visitsFrom, List.findSome?_append, ih, List.findSome?_map, List.findSome?_cons]
    change s.refusal?.or _ = _
    cases s.refusal? <;> rfl

@[simp] theorem refusal?_visited (place : Place κ) (ds : List (Deed κ)) (stop : Stop κ)
    (children : List (Site κ)) :
    (visited place ds stop children).refusal? = stop.refusal?.or (children.findSome? refusal?) := by
  rw [refusal?, visits, List.findSome?_cons, findSome?_visitsFrom]
  cases stop.refusal? <;> rfl

/-! ### Paths -/

theorem exists_path_of_mem {i : Nat} {ss : List (Site κ)} {v : Arrival κ}
    (hv : v ∈ visitsFrom i ss) : ∃ j path, i ≤ j ∧ v.path = j :: path := by
  induction ss generalizing i with
  | nil => simp [visitsFrom] at hv
  | cons s ss ih =>
    rcases List.mem_append.mp hv with hv | hv
    · obtain ⟨w, -, rfl⟩ := List.mem_map.mp hv
      exact ⟨i, w.path, Nat.le_refl i, rfl⟩
    · obtain ⟨j, path, hj, hp⟩ := ih hv
      exact ⟨j, path, Nat.le_of_succ_le hj, hp⟩

mutual

theorem visits_sorted : ∀ s : Site κ, s.visits.Pairwise fun v w => v.path < w.path
  | unvisited => List.Pairwise.nil
  | visited place ds stop children => by
    refine List.Pairwise.cons (fun w hw => ?_) (visitsFrom_sorted 0 children)
    obtain ⟨j, path, -, hp⟩ := exists_path_of_mem hw
    rw [hp]
    exact List.nil_lt_cons j path

theorem visitsFrom_sorted : ∀ (i : Nat) (ss : List (Site κ)),
    (visitsFrom i ss).Pairwise fun v w => v.path < w.path
  | _, [] => List.Pairwise.nil
  | i, s :: ss => by
    refine List.pairwise_append.mpr ⟨?_, visitsFrom_sorted (i + 1) ss, fun v hv w hw => ?_⟩
    · refine List.pairwise_map.mpr ((visits_sorted s).imp fun hlt => ?_)
      exact List.cons_lt_cons_iff.mpr (.inr ⟨rfl, hlt⟩)
    · obtain ⟨v, -, rfl⟩ := List.mem_map.mp hv
      obtain ⟨j, path, hj, hp⟩ := exists_path_of_mem hw
      rw [hp]
      exact List.cons_lt_cons_iff.mpr (.inl hj)

end

end Site

/-- The children are visited one after the other, up to the first in which something is refused. -/
inductive InTurn (shows : Place κ → Site κ → Prop) : List (Place κ) → List (Site κ) → Prop
  | nil : InTurn shows [] []
  | next {p ps s ss} (h : shows p s) (hs : s.refusal? = none) (hss : InTurn shows ps ss) :
    InTurn shows (p :: ps) (s :: ss)
  | last {p ps s e} (h : shows p s) (hs : s.refusal? = some e) :
    InTurn shows (p :: ps) (s :: ps.map fun _ => .unvisited)

/-- The document at a place. -/
inductive Shows (strict : Bool) : Place κ → Site κ → Prop
  | visit {place ds stop children} (h : Arrives strict place ds stop)
    (hc : InTurn (Shows strict) stop.places children) :
    Shows strict place (.visited place ds stop children)

/-! ## What is shown -/

theorem Site.visitsFrom_unvisited (i : Nat) (ps : List (Place κ)) :
    visitsFrom i (ps.map fun _ => (unvisited : Site κ)) = [] := by
  induction ps generalizing i with
  | nil => rfl
  | cons p ps ih => exact ih (i + 1)

theorem Site.unrefused_iff {s : Site κ} :
    s.refusal? = none ↔ ∀ v ∈ s.visits, v.stop.refusal? = none :=
  List.findSome?_eq_none_iff

mutual

/-- At each place that is visited happens what happens there. -/
theorem Shows.arrives {strict : Bool} {p : Place κ} : ∀ {s : Site κ}, Shows strict p s →
    ∀ v ∈ s.visits, Arrives strict v.place v.deeds v.stop
  | _, .visit h hc => by
    rintro v (_ | ⟨_, hv⟩)
    · exact h
    · exact arrives_from hc 0 v hv

theorem arrives_from {strict : Bool} : ∀ {ps : List (Place κ)} {ss : List (Site κ)},
    InTurn (Shows strict) ps ss → ∀ i,
      ∀ v ∈ Site.visitsFrom i ss, Arrives strict v.place v.deeds v.stop
  | _, _, .nil => fun _ v hv => nomatch hv
  | _, _, .next h hs hss => fun i v hv => by
    rcases List.mem_append.mp hv with hv | hv
    · obtain ⟨w, hw, rfl⟩ := List.mem_map.mp hv
      exact h.arrives w hw
    · exact arrives_from hss (i + 1) v hv
  | _, _, .last h hs => fun i v hv => by
    rw [Site.visitsFrom, Site.visitsFrom_unvisited, List.append_nil] at hv
    obtain ⟨w, hw, rfl⟩ := List.mem_map.mp hv
    exact h.arrives w hw

end

mutual

/-- Nothing is visited after a place that is refused. -/
theorem Shows.halts {strict : Bool} {p : Place κ} : ∀ {s : Site κ}, Shows strict p s →
    s.visits.Pairwise fun v _ => v.stop.refusal? = none
  | _, @Shows.visit _ _ _ _ stop _ h hc => by
    refine List.Pairwise.cons (fun w hw => ?_) (halts_from hc 0)
    cases stop with
    | refused e =>
      cases hc
      exact nomatch hw
    | _ => rfl

theorem halts_from {strict : Bool} : ∀ {ps : List (Place κ)} {ss : List (Site κ)},
    InTurn (Shows strict) ps ss → ∀ i,
      (Site.visitsFrom i ss).Pairwise fun v _ => v.stop.refusal? = none
  | _, _, .nil => fun _ => List.Pairwise.nil
  | _, _, .next h hs hss => fun i => by
    refine List.pairwise_append.mpr
      ⟨List.pairwise_map.mpr h.halts, halts_from hss (i + 1), fun v hv w _ => ?_⟩
    obtain ⟨u, hu, rfl⟩ := List.mem_map.mp hv
    exact Site.unrefused_iff.mp hs u hu
  | _, _, .last h hs => fun i => by
    rw [Site.visitsFrom, Site.visitsFrom_unvisited, List.append_nil]
    exact List.pairwise_map.mpr h.halts

end

end TreeStream
