import TreeStream.Proofs.Meanings
import TreeStream.Proofs.Written

/-!
# What pure models render to

A meaning fixes the JSON value of a model whose code is pure. Where code may have to wait the
serializer never refuses such a model, and what it writes stands for the value: a deferred row is
referred to in the place of a part, and with each reference replaced by what the deferred row yields
the tree of the value comes out (`position_stands`).
-/

namespace TreeStream

variable {κ : Type}

def Renderable.runsCode {μ : Type} : Renderable κ μ → Bool
  | function _ _ => true
  | forwardRef _ _ => true
  | memo inner => inner.runsCode
  | _ => false

namespace Meaning

open Serializer (orNull referenceTo)

/-! ## Rendering -/

section

variable (M : Meaning κ) (modules : ModuleSource κ) (P : Model κ → Option Json → Prop)

/-- The effects of pure code where nothing waits. -/
def effects : CodeEffects κ Option where
  render code props _ := (M.render code props).map .ready
  load code := (M.load code).map .ready
  toModel _ := none

inductive ItemsRendered : List (Model κ) → List Json → Prop
  | nil : ItemsRendered [] []
  | cons {x xs j js} (h : P x j) (hs : ItemsRendered xs js) :
    ItemsRendered (x :: xs) (orNull j :: js)

inductive FieldsRendered : List (String × Model κ) → List (String × Json) → Prop
  | nil : FieldsRendered [] []
  | keep {k x fs j js} (h : P x (some j)) (hs : FieldsRendered fs js) :
    FieldsRendered ((k, x) :: fs) ((k, j) :: js)
  | leave {k x fs js} (h : P x none) (hs : FieldsRendered fs js) :
    FieldsRendered ((k, x) :: fs) js

/-- What a value renders to after its parts. What user code makes is not undefined in the end. -/
inductive Rendered : Model κ → Option Json → Prop
  | leaf {value j} (h : Serializer.LeafWritten value j) : Rendered value j
  | layer {e next j} (h : Serializer.resolveElement M.effects e = some (.ready next))
    (hnext : P next j) (hj : e.renderable.runsCode = true → j.isSome = true) :
    Rendered (.element e) j
  | array {items js} (h : ItemsRendered P items js) : Rendered (.array items) (some (.array js))
  | record {r : Record (Model κ)} {js} (h : FieldsRendered P r.entries js) :
    Rendered (.record r) (some (.object js))
  | block {b json value m d} (hm : M.metadata modules b.module = some json)
    (hmodule : P (Model.ofJson json) m) (hl : M.load b.load = some value) (hdata : P value d) :
    Rendered (.serverBlock b) (some (.array [.string RowToken.blockMark, orNull m, orNull d]))

def RendersIn : Nat → Model κ → Option Json → Prop
  | 0, _, _ => False
  | n + 1, value, j => M.Rendered modules (RendersIn n) value j

/-- What a value renders to, if it has no custom values and all code in it is pure. -/
def Renders (value : Model κ) (j : Option Json) : Prop := ∃ n, M.RendersIn modules n value j

end

variable {M : Meaning κ} {modules : ModuleSource κ} {P P' : Model κ → Option Json → Prop}

theorem ItemsRendered.imp (hp : ∀ x j, P x j → P' x j) {items : List (Model κ)} {js : List Json}
    (h : ItemsRendered P items js) : ItemsRendered P' items js := by
  induction h with
  | nil => exact .nil
  | cons h hs ih => exact .cons (hp _ _ h) ih

theorem FieldsRendered.imp (hp : ∀ x j, P x j → P' x j) {fs : List (String × Model κ)}
    {js : List (String × Json)} (h : FieldsRendered P fs js) : FieldsRendered P' fs js := by
  induction h with
  | nil => exact .nil
  | keep h hs ih => exact .keep (hp _ _ h) ih
  | leave h hs ih => exact .leave (hp _ _ h) ih

theorem Rendered.imp (hp : ∀ x j, P x j → P' x j) {value : Model κ} {j : Option Json}
    (h : M.Rendered modules P value j) : M.Rendered modules P' value j := by
  cases h with
  | leaf h => exact .leaf h
  | layer h hnext hj => exact .layer h (hp _ _ hnext) hj
  | array h => exact .array (h.imp hp)
  | record h => exact .record (h.imp hp)
  | block hm hmodule hl hdata => exact .block hm (hp _ _ hmodule) hl (hp _ _ hdata)

theorem Renders.parts {value : Model κ} {j : Option Json} (h : M.Renders modules value j) :
    M.Rendered modules (M.Renders modules) value j := by
  obtain ⟨n, hn⟩ := h
  cases n with
  | zero => exact hn.elim
  | succ n => exact hn.imp fun x j hx => ⟨n, hx⟩

theorem ItemsRendered.unique (hp : ∀ x j j', P x j → P' x j' → j = j') {items : List (Model κ)}
    {js js' : List Json} (h : ItemsRendered P items js) (h' : ItemsRendered P' items js') :
    js = js' := by
  induction h generalizing js' with
  | nil => cases h'; rfl
  | cons h hs ih =>
    cases h' with
    | cons h' hs' => rw [hp _ _ _ h h', ih hs']

theorem FieldsRendered.unique (hp : ∀ x j j', P x j → P' x j' → j = j')
    {fs : List (String × Model κ)} {js js' : List (String × Json)}
    (h : FieldsRendered P fs js) (h' : FieldsRendered P' fs js') : js = js' := by
  induction h generalizing js' with
  | nil => cases h'; rfl
  | keep h hs ih =>
    cases h' with
    | keep h' hs' => cases hp _ _ _ h h'; rw [ih hs']
    | leave h' hs' => cases hp _ _ _ h h'
  | leave h hs ih =>
    cases h' with
    | keep h' hs' => cases hp _ _ _ h h'
    | leave h' hs' => exact ih hs'

theorem leafWritten_unique {value : Model κ} {j j' : Option Json}
    (h : Serializer.LeafWritten value j) (h' : Serializer.LeafWritten value j') : j = j' := by
  cases h <;> cases h' <;> rfl

theorem Rendered.unique (hp : ∀ x j j', P x j → P' x j' → j = j') {value : Model κ}
    {j j' : Option Json} (h : M.Rendered modules P value j) (h' : M.Rendered modules P' value j') :
    j = j' := by
  cases h with
  | leaf h =>
    cases h' with
    | leaf h' => exact leafWritten_unique h h'
    | _ => cases h
  | layer h hnext hj =>
    cases h' with
    | leaf h' => cases h'
    | layer h' hnext' hj' =>
      cases h.symm.trans h'
      exact hp _ _ _ hnext hnext'
  | array h =>
    cases h' with
    | leaf h' => cases h'
    | array h' => rw [h.unique hp h']
  | record h =>
    cases h' with
    | leaf h' => cases h'
    | record h' => rw [h.unique hp h']
  | block hm hmodule hl hdata =>
    cases h' with
    | leaf h' => cases h'
    | block hm' hmodule' hl' hdata' =>
      cases hm.symm.trans hm'
      cases hl.symm.trans hl'
      rw [hp _ _ _ hmodule hmodule', hp _ _ _ hdata hdata']

theorem Renders.unique {value : Model κ} {j j' : Option Json} (h : M.Renders modules value j)
    (h' : M.Renders modules value j') : j = j' := by
  obtain ⟨n, hn⟩ := h
  induction n generalizing value j j' with
  | zero => exact hn.elim
  | succ n ih =>
    exact Rendered.unique (P := M.RendersIn modules n) (fun x j j' hx hx' => ih hx' hx) hn h'.parts

/-! ## Queries -/

/-- The value that a deferred row starts from. -/
def start? (M : Meaning κ) : Query κ → Option (Model κ)
  | .model value => some value
  | .load code => M.load code

/-- The tree that a deferred row comes to. -/
def Yields (M : Meaning κ) (modules : ModuleSource κ) (query : Query κ) (tree : RowTree) : Prop :=
  ∃ value j, M.start? query = some value ∧ M.Renders modules value j ∧
    tree = RowTree.ofJson (orNull j)

theorem Yields.unique {query : Query κ} {tree tree' : RowTree} (h : M.Yields modules query tree)
    (h' : M.Yields modules query tree') : tree = tree' := by
  obtain ⟨value, j, hstart, hj, rfl⟩ := h
  obtain ⟨value', j', hstart', hj', rfl⟩ := h'
  cases hstart.symm.trans hstart'
  rw [hj.unique hj']

theorem yields_model {value : Model κ} {j : Option Json} (h : M.Renders modules value j) :
    M.Yields modules (.model value) (RowTree.ofJson (orNull j)) :=
  ⟨value, j, rfl, h, rfl⟩

/-- Each id of a deferred row is read as the tree that the row comes to. -/
def Fits (M : Meaning κ) (modules : ModuleSource κ) (D : RowId → RowTree)
    (is : List (Issue κ)) : Prop :=
  ∀ s id query, .segment s id query ∈ is → M.Yields modules query (D id)

/-- The row is deferred, which happens only where something waits, and it will come to a tree. -/
def Deferred (M : Meaning κ) (modules : ModuleSource κ) (waits : Prop) (i : Issue κ) : Prop :=
  waits ∧ ∃ s id query tree, i = .segment s id query ∧ M.Yields modules query tree

/-- Something holds once the rows issued on the way are read as what they come to. -/
def Stands (M : Meaning κ) (modules : ModuleSource κ) (waits : Prop) (is : List (Issue κ))
    (Q : (RowId → RowTree) → Prop) : Prop :=
  (∀ i ∈ is, M.Deferred modules waits i) ∧ ∀ D, M.Fits modules D is → Q D

variable {waits : Prop} {is is' : List (Issue κ)} {Q Q' R : (RowId → RowTree) → Prop}

theorem Stands.nil (h : ∀ D, Q D) : M.Stands modules waits [] Q :=
  ⟨fun _ hi => (nomatch hi), fun D _ => h D⟩

theorem Stands.imp (h : M.Stands modules waits is Q) (hq : ∀ D, Q D → R D) :
    M.Stands modules waits is R :=
  ⟨h.1, fun D hd => hq D (h.2 D hd)⟩

theorem Stands.append (h : M.Stands modules waits is Q) (h' : M.Stands modules waits is' Q')
    (hq : ∀ D, Q D → Q' D → R D) : M.Stands modules waits (is ++ is') R := by
  constructor
  · intro i hi
    exact (List.mem_append.mp hi).elim (h.1 i) (h'.1 i)
  · intro D hd
    apply hq D
    · exact h.2 D fun s id query hi => hd s id query (List.mem_append_left _ hi)
    · exact h'.2 D fun s id query hi => hd s id query (List.mem_append_right _ hi)

def Fills (j j' : Json) (D : RowId → RowTree) : Prop :=
  (RowTree.ofJson j).fill? (fun id => some (D id)) = some (RowTree.ofJson j')

/-- A reference stands for what the deferred row comes to. -/
theorem stands_reference (hw : waits) (s : SegmentId) (id : RowId) {query : Query κ} {j : Json}
    (h : M.Yields modules query (RowTree.ofJson j)) :
    M.Stands modules waits [.segment s id query] (Fills (referenceTo id) j) := by
  constructor
  · intro i hi
    rw [List.mem_singleton.mp hi]
    exact ⟨hw, s, id, query, _, rfl, h⟩
  · intro D hd
    rw [Fills, referenceTo, RowTree.ofJson, RowToken.parse_ofId, RowTree.fill?,
      (hd s id query List.mem_cons_self).unique h]

/-! ## What is written -/

variable {r : RequestId} {modules₀ : ModuleSource κ} {model : Model κ} {strict : Bool}

/-- An element is advanced as its meaning tells, or user code has to wait. -/
theorem resolves_layer {e : Element κ (Model κ)} {next : Model κ}
    {outcome : Resolution κ (Model κ)}
    (h : Serializer.resolveElement M.effects e = some (.ready next))
    (ho : (M.world waits r modules₀ model).Resolves e outcome) :
    outcome = .ready next ∨
      waits ∧ e.renderable.runsCode = true ∧ ∃ t, outcome = .suspended t := by
  obtain ⟨renderable, key, props⟩ := e
  have hcode : ∀ {code : Code κ}, (M.render code props).map Resolution.ready =
      some (.ready next : Resolution κ (Model κ)) →
      (M.world waits r modules₀ model).render code props none outcome →
      outcome.Gives waits next := by
    intro code hrender hr
    obtain ⟨value, hvalue, hready⟩ := Option.map_eq_some_iff.mp hrender
    cases hready
    exact hr rfl _ hvalue
  unfold World.Resolves Serializer.resolveElement at ho
  unfold Serializer.resolveElement at h
  simp only at h ho
  induction renderable generalizing key with
  | function name render =>
    exact (hcode h ho.1).imp id fun hs => ⟨hs.1, rfl, hs.2⟩
  | forwardRef name render =>
    exact (hcode h ho.1).imp id fun hs => ⟨hs.1, rfl, hs.2⟩
  | memo inner ih => exact ih none h ho
  | host tag => cases h; exact .inl ho.1
  | serverBlock block => cases h; exact .inl ho.1
  | wrapper kind => cases h; exact .inl ho.1
  | «lazy» => cases h
  | provider name => cases h
  | context name => cases h

section

variable {f : String → Model κ → Refusable κ (Option Json)} {e : RenderError}
  {is : List (Issue κ)}

theorem ItemsRendered.not_refused (hf : ∀ k x j is, P x j → ¬ (f k x).run (.error e) is)
    {items : List (Model κ)} {js : List Json} (h : ItemsRendered P items js) {i : Nat} :
    ¬ (Serializer.overItems f i items).run (.error e) is := by
  induction h generalizing i is with
  | nil => exact Refusable.pure_error
  | cons h hs ih =>
    intro hrun
    rcases Refusable.bind_error.mp hrun with hfirst | ⟨j, is₁, is₂, -, hrest, -⟩
    · exact hf _ _ _ _ h hfirst
    · rcases Refusable.bind_error.mp hrest with hlater | ⟨js, is₃, is₄, -, hend, -⟩
      · exact ih hlater
      · exact Refusable.pure_error hend

theorem FieldsRendered.not_refused (hf : ∀ k x j is, P x j → ¬ (f k x).run (.error e) is)
    {fs : List (String × Model κ)} {js : List (String × Json)} (h : FieldsRendered P fs js) :
    ¬ (Serializer.overFields f fs).run (.error e) is := by
  have hstep : ∀ {k x j fs is}, P x j →
      (∀ is, ¬ (Serializer.overFields f fs).run (.error e) is) →
      ¬ (Serializer.overFields f ((k, x) :: fs)).run (.error e) is := by
    intro k x j fs is hx hlater hrun
    rcases Refusable.bind_error.mp hrun with hfirst | ⟨j', is₁, is₂, -, hrest, -⟩
    · exact hf _ _ _ _ hx hfirst
    · rcases Refusable.bind_error.mp hrest with hlater' | ⟨js, is₃, is₄, -, hend, -⟩
      · exact hlater _ hlater'
      · exact Refusable.pure_error hend
  induction h generalizing is with
  | nil => exact Refusable.pure_error
  | keep h hs ih => exact hstep h fun is => ih
  | leave h hs ih => exact hstep h fun is => ih

end

theorem Renders.not_refused {value : Model κ} {j : Option Json} (h : M.Renders modules value j)
    {n : Nat} {parent : Container κ} {key : String} {substituted : Bool} {e : RenderError}
    {is : List (Issue κ)} :
    ¬ (Serializer.position (M.world waits r modules₀ model).effects
      ((M.world waits r modules₀ model).context modules strict) n parent key substituted
      value).run (.error e) is := by
  induction n generalizing value j parent key substituted is with
  | zero => exact id
  | succ n ih =>
    have hpart : ∀ {walk : Refusable κ (Option Json)} {f : Option Json → Json} {is},
        ¬ walk.run (.error e) is → ¬ (f <$> walk).run (.error e) is :=
      fun hwalk hrun => hwalk (Refusable.map_error.mp hrun)
    intro hrun
    cases h.parts with
    | leaf hleaf => cases hleaf <;> cases hrun.1
    | array hitems =>
      rcases Refusable.bind_error.mp hrun with hrefused | ⟨js, is₁, is₂, -, hend, -⟩
      · refine hitems.not_refused ?_ hrefused
        exact fun k x j is hx => ih hx
      · exact Refusable.pure_error hend
    | record hfields =>
      rcases Refusable.bind_error.mp hrun with hrefused | ⟨js, is₁, is₂, -, hend, -⟩
      · refine hfields.not_refused ?_ hrefused
        exact fun k x j is hx => ih hx
      · exact Refusable.pure_error hend
    | layer hlayer hnext hj =>
      rcases Refusable.bind_error.mp hrun with hlift | ⟨outcome, is₁, is₂, hlift, hrest, -⟩
      · exact Refusable.lift_error hlift
      have houtcome := Refusable.lift_ok.mp hlift
      obtain rfl := Serializer.resolveRenderable_issues houtcome
      rcases resolves_layer hlayer houtcome with rfl | ⟨-, -, t, rfl⟩
      · exact ih hnext hrest
      · rcases Refusable.bind_error.mp hrest with hsuspend | ⟨id, is₃, is₄, -, hend, -⟩
        · exact Refusable.lift_error hsuspend
        · exact Refusable.pure_error hend
    | block hm hmodule hl hdata =>
      rcases Refusable.bind_error.mp hrun with hlift | ⟨found, is₁, is₂, hlift, hrest, -⟩
      · exact Refusable.lift_error hlift
      obtain ⟨hfound, -⟩ := Refusable.lift_ok.mp hlift
      cases hfound _ hm
      rcases Refusable.bind_error.mp hrest with hslot | ⟨m, is₃, is₄, -, hrest', -⟩
      · exact hpart (ih hmodule) hslot
      rcases Refusable.bind_error.mp hrest' with hlift' | ⟨outcome, is₅, is₆, hlift', hrest'', -⟩
      · exact Refusable.lift_error hlift'
      obtain ⟨hload, -⟩ := Refusable.lift_ok.mp hlift'
      rcases Refusable.bind_error.mp hrest'' with hslot' | ⟨d, is₇, is₈, -, hend, -⟩
      · rcases hload _ hl with rfl | ⟨-, t, rfl⟩
        · exact hpart (ih hdata) hslot'
        · exact Refusable.lift_error (Refusable.map_error.mp hslot')
      · exact Refusable.pure_error hend

/-- The rows deferred on the way stand for the parts that are left out. -/
def StandsFor (M : Meaning κ) (modules : ModuleSource κ) (waits : Prop) (value : Model κ)
    (j : Option Json) (is : List (Issue κ)) : Prop :=
  ∀ j', M.Renders modules value j' →
    j.isSome = j'.isSome ∧ M.Stands modules waits is (Fills (orNull j) (orNull j'))

theorem stands_items {items : List (Model κ)} {js js' : List Json} {is : List (Issue κ)}
    (h : Serializer.ItemsWritten (M.StandsFor modules waits) items js is)
    (h' : ItemsRendered (M.Renders modules) items js') :
    M.Stands modules waits is fun D =>
      RowTree.fillItems? (fun id => some (D id)) (RowTree.itemsOfJson js) =
        some (RowTree.itemsOfJson js') := by
  induction h generalizing js' with
  | nil =>
    cases h'
    exact .nil fun D => rfl
  | cons h hs ih =>
    cases h' with
    | cons h' hs' =>
      apply (h _ h').2.append (ih hs')
      intro D hd hds
      rw [RowTree.itemsOfJson, RowTree.fillItems?, hd, Option.bind_some, hds]
      rfl

theorem stands_fields {fs : List (String × Model κ)} {js js' : List (String × Json)}
    {is : List (Issue κ)} (h : Serializer.FieldsWritten (M.StandsFor modules waits) fs js is)
    (h' : FieldsRendered (M.Renders modules) fs js') :
    M.Stands modules waits is fun D =>
      RowTree.fillFields? (fun id => some (D id)) (RowTree.fieldsOfJson js) =
        some (RowTree.fieldsOfJson js') := by
  induction h generalizing js' with
  | nil =>
    cases h'
    exact .nil fun D => rfl
  | keep h hs ih =>
    cases h' with
    | keep h' hs' =>
      apply (h _ h').2.append (ih hs')
      intro D hd hds
      simp only [Fills, orNull, Option.getD_some] at hd
      rw [RowTree.fieldsOfJson, RowTree.fillFields?, hd, Option.bind_some, hds]
      rfl
    | leave h' hs' => cases (h _ h').1
  | leave h hs ih =>
    cases h' with
    | keep h' hs' => cases (h _ h').1
    | leave h' hs' => exact (h _ h').2.append (ih hs') fun D _ hds => hds

theorem stands_module {m : ModuleReference} {json : Json} {j : Option Json} {written : Json}
    {is : List (Issue κ)} (hm : M.metadata modules m = some json)
    (hj : M.Renders modules (Model.ofJson json) j)
    (h : Serializer.ModuleWritten (M.world waits r modules₀ model) modules
      (M.StandsFor modules waits) m written is) :
    M.Stands modules waits is (Fills written (orNull j)) := by
  cases h with
  | found hm' h =>
    cases hm' _ hm
    exact (h _ hj).2
  | missing id hm' => cases hm' _ hm

theorem stands_data {load : Code κ} {value : Model κ} {j : Option Json} {written : Json}
    {is : List (Issue κ)} (hl : M.load load = some value) (hj : M.Renders modules value j)
    (h : Serializer.DataWritten (M.world waits r modules₀ model) (M.StandsFor modules waits) load
      written is) :
    M.Stands modules waits is (Fills written (orNull j)) := by
  cases h with
  | ready hl' h =>
    rcases hl' _ hl with hready | ⟨-, t, ht⟩
    · cases hready
      exact (h _ hj).2
    · cases ht
  | deferred s id hl' =>
    rcases hl' _ hl with hready | ⟨hw, -⟩
    · cases hready
    · exact stands_reference hw s id ⟨value, j, hl, hj, rfl⟩
  | failed id hl' =>
    rcases hl' _ hl with hready | ⟨-, t, ht⟩
    · cases hready
    · cases ht

/-- What the serializer writes stands for what the value renders to. -/
theorem position_stands {n : Nat} {parent : Container κ} {key : String} {substituted : Bool}
    {value : Model κ} {j : Option Json} {is : List (Issue κ)}
    (h : (Serializer.position (M.world waits r modules₀ model).effects
      ((M.world waits r modules₀ model).context modules strict) n parent key substituted
      value).run (.ok j) is) : M.StandsFor modules waits value j is := by
  refine Serializer.position_induct (P := M.StandsFor modules waits) ?custom ?layer ?wait ?array
    ?record ?block ?leaf h
  case custom =>
    intro name toModel next j is _ _ j' hj'
    cases hj'.parts with
    | leaf hleaf => cases hleaf
  case layer =>
    intro e next j is hr hnext j' hj'
    cases hj'.parts with
    | leaf hleaf => cases hleaf
    | layer hlayer hnext' hsome =>
      rcases resolves_layer hlayer hr with hready | ⟨-, -, t, ht⟩
      · cases hready
        exact hnext _ hnext'
      · cases ht
  case wait =>
    intro e t s id hr j' hj'
    cases hj'.parts with
    | leaf hleaf => cases hleaf
    | layer hlayer hnext' hsome =>
      rcases resolves_layer hlayer hr with hready | ⟨hw, hruns, -⟩
      · cases hready
      · exact ⟨(hsome hruns).symm, stands_reference hw s id (yields_model hj')⟩
  case array =>
    intro items js is hitems j' hj'
    cases hj'.parts with
    | leaf hleaf => cases hleaf
    | array hitems' =>
      refine ⟨rfl, (stands_items hitems hitems').imp fun D hd => ?_⟩
      simp only [Fills, orNull, Option.getD_some, RowTree.ofJson, RowTree.fill?, hd,
        Option.map_some]
  case record =>
    intro fields js is hfields j' hj'
    cases hj'.parts with
    | leaf hleaf => cases hleaf
    | record hfields' =>
      refine ⟨rfl, (stands_fields hfields hfields').imp fun D hd => ?_⟩
      simp only [Fills, orNull, Option.getD_some, RowTree.ofJson, RowTree.fill?, hd,
        Option.map_some]
  case block =>
    intro b m d is is' hmodule hdata j' hj'
    cases hj'.parts with
    | leaf hleaf => cases hleaf
    | block hm hmodule' hl hdata' =>
      refine ⟨rfl, (stands_module hm hmodule' hmodule).append (stands_data hl hdata' hdata) ?_⟩
      intro D hm hd
      have hmark : Fills (.string RowToken.blockMark) (.string RowToken.blockMark) D :=
        RowTree.fill?_of_references_eq_nil rfl
      rw [Fills] at hmark hm hd
      simp only [Fills, orNull, Option.getD_some, RowTree.ofJson.eq_6, RowTree.itemsOfJson,
        RowTree.fill?, RowTree.fillItems?, hmark, Option.bind_some]
      simp only [orNull] at hm hd
      rw [hm, hd]
      rfl
  case leaf =>
    intro value j hleaf j' hj'
    have hj := hj'.unique ⟨1, .leaf hleaf⟩
    rw [hj]
    exact ⟨rfl, .nil fun D => RowTree.fill?_of_references_eq_nil (Serializer.references_leaf hleaf)⟩

end Meaning
end TreeStream
