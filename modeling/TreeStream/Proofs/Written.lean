import TreeStream.Proofs.RowTrees
import TreeStream.Proofs.Writing

/-!
# What the serializer writes

A value that is not refused is written in one of a few ways, each after its parts. What holds of all
these ways holds of everything the serializer writes (`position_induct`); that a row refers to just
the rows issued on its way, in their order, is the first instance.
-/

namespace TreeStream
namespace Serializer

variable {κ : Type}

section

variable (W : World κ) (modules : ModuleSource κ)
  (P : Model κ → Option Json → List (Issue κ) → Prop)

inductive LeafWritten : Model κ → Option Json → Prop
  | undefined : LeafWritten .undefined none
  | null : LeafWritten .null (some .null)
  | bool (b : Bool) : LeafWritten (.bool b) (some (.bool b))
  | number (d : Double) : LeafWritten (.number d) (some (ofNumber d))
  | string (s : String) : LeafWritten (.string s) (some (.string (RowToken.escape s)))
  | element : LeafWritten (.marker .element) (some (.string RowToken.elementMark))
  | serverBlock : LeafWritten (.marker .serverBlock) (some (.string RowToken.blockMark))

inductive ItemsWritten : List (Model κ) → List Json → List (Issue κ) → Prop
  | nil : ItemsWritten [] [] []
  | cons {x xs j js is is'} (h : P x j is) (hs : ItemsWritten xs js is') :
    ItemsWritten (x :: xs) (orNull j :: js) (is ++ is')

inductive FieldsWritten :
    List (String × Model κ) → List (String × Json) → List (Issue κ) → Prop
  | nil : FieldsWritten [] [] []
  | keep {k x fs j js is is'} (h : P x (some j) is) (hs : FieldsWritten fs js is') :
    FieldsWritten ((k, x) :: fs) ((k, j) :: js) (is ++ is')
  | leave {k x fs js is is'} (h : P x none is) (hs : FieldsWritten fs js is') :
    FieldsWritten ((k, x) :: fs) js (is ++ is')

inductive ModuleWritten (m : ModuleReference) : Json → List (Issue κ) → Prop
  | found {json j is} (hm : W.metadata modules m (.ok json)) (h : P (Model.ofJson json) j is) :
    ModuleWritten m (orNull j) is
  | missing {err} (id : RowId) (hm : W.metadata modules m (.error err)) :
    ModuleWritten m (referenceTo id) [.error id err]

inductive DataWritten (load : Code κ) : Json → List (Issue κ) → Prop
  | ready {value j is} (hl : W.load load (.ready value)) (h : P value j is) :
    DataWritten load (orNull j) is
  | deferred {t} (s : SegmentId) (id : RowId) (hl : W.load load (.suspended t)) :
    DataWritten load (referenceTo id) [.segment s id (.load load)]
  | failed {err} (id : RowId) (hl : W.load load (.failed err)) :
    DataWritten load (referenceTo id) [.error id err]

end

variable {W : World κ} {modules : ModuleSource κ} {strict : Bool}
  {P : Model κ → Option Json → List (Issue κ) → Prop}

theorem itemsWritten_of_run {f : String → Model κ → Refusable κ (Option Json)}
    (hf : ∀ k x j is, (f k x).run (.ok j) is → P x j is) {i : Nat} {items : List (Model κ)}
    {js : List Json} {is : List (Issue κ)} (h : (overItems f i items).run (.ok js) is) :
    ItemsWritten P items js is := by
  induction items generalizing i js is with
  | nil =>
    obtain ⟨rfl, rfl⟩ := Refusable.pure_ok.mp h
    exact .nil
  | cons x xs ih =>
    obtain ⟨j, is₁, rest, hj, hrest, rfl⟩ := Refusable.bind_ok.mp h
    obtain ⟨js', is₂, is₃, hjs, hend, rfl⟩ := Refusable.bind_ok.mp hrest
    obtain ⟨rfl, rfl⟩ := Refusable.pure_ok.mp hend
    rw [List.append_nil]
    exact .cons (hf _ _ _ _ hj) (ih hjs)

theorem fieldsWritten_of_run {f : String → Model κ → Refusable κ (Option Json)}
    (hf : ∀ k x j is, (f k x).run (.ok j) is → P x j is) {fs : List (String × Model κ)}
    {js : List (String × Json)} {is : List (Issue κ)}
    (h : (overFields f fs).run (.ok js) is) : FieldsWritten P fs js is := by
  induction fs generalizing js is with
  | nil =>
    obtain ⟨rfl, rfl⟩ := Refusable.pure_ok.mp h
    exact .nil
  | cons p fs ih =>
    obtain ⟨j, is₁, rest, hj, hrest, rfl⟩ := Refusable.bind_ok.mp h
    obtain ⟨js', is₂, is₃, hjs, hend, rfl⟩ := Refusable.bind_ok.mp hrest
    obtain ⟨rfl, rfl⟩ := Refusable.pure_ok.mp hend
    rw [List.append_nil]
    cases j with
    | some j => exact .keep (hf _ _ _ _ hj) (ih hjs)
    | none => exact .leave (hf _ _ _ _ hj) (ih hjs)

theorem FieldsWritten.keys {fs : List (String × Model κ)} {js : List (String × Json)}
    {is : List (Issue κ)} (h : FieldsWritten P fs js is) :
    (js.map Prod.fst).Sublist (fs.map Prod.fst) := by
  induction h with
  | nil => exact .slnil
  | keep _ _ ih => exact ih.cons_cons _
  | leave _ _ ih => exact ih.cons _

/-- The fields of a record have distinct keys, so all that are written stand as they come. -/
theorem FieldsWritten.ofFields {r : Record (Model κ)} {js : List (String × Json)}
    {is : List (Issue κ)} (h : FieldsWritten P r.entries js is) :
    Json.ofFields js = .object js :=
  Json.ofFields_of_nodup (h.keys.nodup r.nodup_entries)

theorem moduleWritten_of_run {walk : Model κ → Refusable κ (Option Json)}
    (hwalk : ∀ x j is, (walk x).run (.ok j) is → P x j is) {m : ModuleReference}
    {found : Except RenderError Json} (hm : W.metadata modules m found) {j : Json}
    {is : List (Issue κ)}
    (h : (moduleSlot (W.context modules strict) walk found).run (.ok j) is) :
    ModuleWritten W modules P m j is := by
  cases found with
  | ok json =>
    obtain ⟨j', hj, rfl⟩ := Refusable.map_ok.mp h
    exact .found hm (hwalk _ _ _ hj)
  | error err =>
    obtain ⟨id, hid, rfl⟩ := Refusable.map_ok.mp h
    cases Refusable.lift_ok.mp hid
    exact .missing id hm

theorem dataWritten_of_run {walk : Model κ → Refusable κ (Option Json)}
    (hwalk : ∀ x j is, (walk x).run (.ok j) is → P x j is) {load : Code κ}
    {outcome : Resolution κ (Model κ)} (hl : W.load load outcome) {j : Json}
    {is : List (Issue κ)}
    (h : (dataSlot (W.context modules strict) walk load outcome).run (.ok j) is) :
    DataWritten W P load j is := by
  cases outcome with
  | ready value =>
    obtain ⟨j', hj, rfl⟩ := Refusable.map_ok.mp h
    exact .ready hl (hwalk _ _ _ hj)
  | suspended t =>
    obtain ⟨id, hid, rfl⟩ := Refusable.map_ok.mp h
    obtain ⟨s, rfl⟩ := Refusable.lift_ok.mp hid
    exact .deferred s id hl
  | failed err =>
    obtain ⟨id, hid, rfl⟩ := Refusable.map_ok.mp h
    cases Refusable.lift_ok.mp hid
    exact .failed id hl

theorem leaf_of_run {parent : Container κ} {key : String} {value : Model κ} {j : Option Json}
    {is : List (Issue κ)}
    (h : (ExceptT.mk (pure (leaf parent key value)) : Refusable κ (Option Json)).run (.ok j) is) :
    leaf parent key value = .ok j ∧ is = [] :=
  ⟨h.1.symm, h.2⟩

/-- What holds of a value whenever it holds of the parts that are written on the way holds of
everything that is written. -/
theorem position_induct
    (custom : ∀ {name toModel next j is}, W.toModel toModel next → P next j is →
      P (.custom name toModel) j is)
    (layer : ∀ {e next j is}, W.Resolves e (.ready next) → P next j is → P (.element e) j is)
    (wait : ∀ {e t} (s id), W.Resolves e (.suspended t) →
      P (.element e) (some (referenceTo id)) [.segment s id (.model (.element e))])
    (array : ∀ {items js is}, ItemsWritten P items js is → P (.array items) (some (.array js)) is)
    (record : ∀ {r : Record (Model κ)} {js is}, FieldsWritten P r.entries js is →
      P (.record r) (some (.object js)) is)
    (block : ∀ {b m d is is'}, ModuleWritten W modules P b.module m is →
      DataWritten W P b.load d is' →
      P (.serverBlock b) (some (.array [.string RowToken.blockMark, m, d])) (is ++ is'))
    (leaf : ∀ {value j}, LeafWritten value j → P value j [])
    {n : Nat} {parent : Container κ} {key : String} {substituted : Bool} {value : Model κ}
    {j : Option Json} {is : List (Issue κ)}
    (h : (position W.effects (W.context modules strict) n parent key substituted value).run
      (.ok j) is) : P value j is := by
  induction n generalizing parent key substituted value j is with
  | zero => exact h.elim
  | succ n ih =>
    cases value with
    | custom name toModel =>
      have hnext : ∀ {is}, (ExceptT.lift (W.effects.toModel toModel) >>=
          position W.effects (W.context modules strict) n parent key true :
            Refusable κ _).run (.ok j) is → P (.custom name toModel) j is := by
        intro is h
        obtain ⟨next, is₁, is₂, hnext, hj, rfl⟩ := Refusable.bind_ok.mp h
        obtain ⟨hto, rfl⟩ := Refusable.lift_ok.mp hnext
        exact custom hto (ih hj)
      cases substituted with
      | true => exact absurd h Refusable.throw_ok
      | false =>
        simp only [position, Bool.false_eq_true, if_false] at h
        cases strict with
        | false => exact hnext h
        | true =>
          obtain ⟨u, is₁, is₂, hwarn, hrest, rfl⟩ := Refusable.bind_ok.mp h
          obtain ⟨-, rfl⟩ := Refusable.lift_ok.mp hwarn
          exact hnext hrest
    | element e =>
      obtain ⟨outcome, is₁, is₂, hlift, hrest, rfl⟩ := Refusable.bind_ok.mp h
      have houtcome := Refusable.lift_ok.mp hlift
      obtain rfl := resolveRenderable_issues houtcome
      cases outcome with
      | ready next => exact layer houtcome (ih hrest)
      | failed err => exact absurd hrest Refusable.throw_ok
      | suspended t =>
        obtain ⟨id, is₃, is₄, hsuspend, hend, rfl⟩ := Refusable.bind_ok.mp hrest
        obtain ⟨rfl, rfl⟩ := Refusable.pure_ok.mp hend
        obtain ⟨s, rfl⟩ := Refusable.lift_ok.mp hsuspend
        exact wait s id houtcome
    | array items =>
      obtain ⟨js, is₁, is₂, hjs, hend, rfl⟩ := Refusable.bind_ok.mp h
      obtain ⟨rfl, rfl⟩ := Refusable.pure_ok.mp hend
      rw [List.append_nil]
      exact array (itemsWritten_of_run (P := P) (fun k x j is hj => ih hj) hjs)
    | record r =>
      obtain ⟨js, is₁, is₂, hjs, hend, rfl⟩ := Refusable.bind_ok.mp h
      obtain ⟨rfl, rfl⟩ := Refusable.pure_ok.mp hend
      have hwritten := fieldsWritten_of_run (P := P) (fun k x j is hj => ih hj) hjs
      rw [List.append_nil, hwritten.ofFields]
      exact record hwritten
    | serverBlock b =>
      obtain ⟨found, is₁, rest, hfound, h₁, rfl⟩ := Refusable.bind_ok.mp h
      obtain ⟨hm, rfl⟩ := Refusable.lift_ok.mp hfound
      obtain ⟨m, is₂, rest₂, hmodule, h₂, rfl⟩ := Refusable.bind_ok.mp h₁
      obtain ⟨outcome, is₃, rest₃, hload, h₃, rfl⟩ := Refusable.bind_ok.mp h₂
      obtain ⟨hl, rfl⟩ := Refusable.lift_ok.mp hload
      obtain ⟨d, is₄, is₅, hdata, hend, rfl⟩ := Refusable.bind_ok.mp h₃
      obtain ⟨rfl, rfl⟩ := Refusable.pure_ok.mp hend
      have hmodule' := moduleWritten_of_run (P := P) (fun x j is hj => ih hj) hm hmodule
      have hdata' := dataWritten_of_run (P := P) (fun x j is hj => ih hj) hl hdata
      simp only [List.nil_append, List.append_nil]
      exact block hmodule' hdata'
    | undefined => obtain ⟨⟨⟩, rfl⟩ := leaf_of_run h; exact leaf .undefined
    | null => obtain ⟨⟨⟩, rfl⟩ := leaf_of_run h; exact leaf .null
    | bool b => obtain ⟨⟨⟩, rfl⟩ := leaf_of_run h; exact leaf (.bool b)
    | number d => obtain ⟨⟨⟩, rfl⟩ := leaf_of_run h; exact leaf (.number d)
    | string s => obtain ⟨⟨⟩, rfl⟩ := leaf_of_run h; exact leaf (.string s)
    | marker kind =>
      cases kind with
      | element => obtain ⟨⟨⟩, rfl⟩ := leaf_of_run h; exact leaf .element
      | serverBlock => obtain ⟨⟨⟩, rfl⟩ := leaf_of_run h; exact leaf .serverBlock
      | lazy | block => exact nomatch (leaf_of_run h).1
    | bigInt i => exact nomatch (leaf_of_run h).1
    | symbol d => exact nomatch (leaf_of_run h).1
    | function name body => exact nomatch (leaf_of_run h).1
    | instanceOf name fields => exact nomatch (leaf_of_run h).1

/-! ## References -/

theorem references_referenceTo (id : RowId) :
    (RowTree.ofJson (referenceTo id)).references = [id] := by
  rw [referenceTo, RowTree.ofJson, RowToken.parse_ofId, RowTree.references]

theorem references_ofNumber (d : Double) : (RowTree.ofJson (ofNumber d)).references = [] := by
  unfold ofNumber
  split
  · split
    · split
      · rfl
      · split <;> rfl
    · rfl
  · rfl

theorem references_leaf {value : Model κ} {j : Option Json} (h : LeafWritten value j) :
    (RowTree.ofJson (orNull j)).references = [] := by
  cases h with
  | undefined | null | element | serverBlock => rfl
  | bool b => cases b <;> rfl
  | number d => exact references_ofNumber d
  | string s =>
    rw [orNull, Option.getD_some, RowTree.ofJson, RowToken.parse_escape, RowTree.references]
    exact fun id he => nomatch he

/-- The rows that were issued while a value was written are those that it refers to. -/
def Cites (j : Option Json) (is : List (Issue κ)) : Prop :=
  (RowTree.ofJson (orNull j)).references = is.map Issue.id

theorem cites_items {items : List (Model κ)} {js : List Json} {is : List (Issue κ)}
    (h : ItemsWritten (fun _ => Cites) items js is) :
    RowTree.itemReferences (RowTree.itemsOfJson js) = is.map Issue.id := by
  induction h with
  | nil => rfl
  | cons hj _ ih =>
    rw [RowTree.itemsOfJson, RowTree.itemReferences, hj, ih, List.map_append]

theorem cites_fields {fs : List (String × Model κ)} {js : List (String × Json)}
    {is : List (Issue κ)} (h : FieldsWritten (fun _ => Cites) fs js is) :
    RowTree.fieldReferences (RowTree.fieldsOfJson js) = is.map Issue.id := by
  induction h with
  | nil => rfl
  | keep hj _ ih =>
    rw [RowTree.fieldsOfJson, RowTree.fieldReferences, List.map_append, ← hj, ih]
    rfl
  | leave hj _ ih =>
    rw [List.map_append, ← hj, ih]
    rfl

theorem cites_module {m : ModuleReference} {j : Json} {is : List (Issue κ)}
    (h : ModuleWritten W modules (fun _ => Cites) m j is) : Cites (some j) is := by
  cases h with
  | found _ hj => exact hj
  | missing id => exact references_referenceTo id

theorem cites_data {load : Code κ} {j : Json} {is : List (Issue κ)}
    (h : DataWritten W (fun _ => Cites) load j is) : Cites (some j) is := by
  cases h with
  | ready _ hj => exact hj
  | deferred s id => exact references_referenceTo id
  | failed id => exact references_referenceTo id

/-- In the order of the text a value refers to just the rows issued on its way, in their order. -/
theorem position_cites {n : Nat} {parent : Container κ} {key : String} {substituted : Bool}
    {value : Model κ} {j : Option Json} {is : List (Issue κ)}
    (h : (position W.effects (W.context modules strict) n parent key substituted value).run
      (.ok j) is) : Cites j is := by
  refine position_induct (P := fun _ => Cites) (fun _ hj => hj) (fun _ hj => hj)
    (fun _ id _ => references_referenceTo id) cites_items cites_fields
    (fun hm hd => ?_) references_leaf h
  have hmark : (RowTree.ofJson (.string RowToken.blockMark)).references = [] := rfl
  rw [Cites, List.map_append, ← cites_module hm, ← cites_data hd]
  simp only [orNull, Option.getD_some, RowTree.ofJson.eq_6, RowTree.itemsOfJson,
    RowTree.references, RowTree.itemReferences, hmark, List.nil_append, List.append_nil]

theorem serialize_cites {depth : Nat} {value : Model κ} {json : String} {is : List (Issue κ)}
    (h : W.Serializes modules strict depth value (.ok json) is) :
    ∃ tree, RowTree.read? json = some tree ∧ tree.references = is.map Issue.id := by
  obtain ⟨j, is₁, is₂, hj, hend, rfl⟩ := Refusable.bind_ok.mp h
  obtain ⟨rfl, rfl⟩ := Refusable.pure_ok.mp hend
  refine ⟨_, RowTree.read?_text _, ?_⟩
  rw [List.append_nil]
  exact position_cites hj

end Serializer
end TreeStream
