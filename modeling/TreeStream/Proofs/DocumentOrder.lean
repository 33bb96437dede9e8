import TreeStream.Proofs.Documents

/-!
# The serializer goes through the document in order

Each run of a walk shows a document whose effects, one visit after the other, are the effects of the
run; the run is refused as the document is, and otherwise gives the JSON of the document.
-/

namespace TreeStream

open Serializer

variable {κ α β : Type} {strict : Bool}

def refusedOr (refusal : Option RenderError) (a : α) : Except RenderError α :=
  match refusal with
  | some e => .error e
  | none => .ok a

theorem refusedOr_eq_error {refusal : Option RenderError} {a : α} {e : RenderError} :
    refusedOr refusal a = .error e ↔ refusal = some e := by
  cases refusal <;> simp [refusedOr]

theorem refusedOr_eq_ok {refusal : Option RenderError} {a b : α} :
    refusedOr refusal a = .ok b ↔ refusal = none ∧ a = b := by
  cases refusal <;> simp [refusedOr]

theorem map_refusedOr (f : α → β) (refusal : Option RenderError) (a : α) :
    (refusedOr refusal a).map f = refusedOr refusal (f a) := by
  cases refusal <;> rfl

/-! ## One place -/

theorem renders_of_runs {key : Option String} {props : Props κ} {renderable : Renderable κ (Model κ)}
    {ds : List (Deed κ)} {outcome : Resolution κ (Model κ)}
    (h : (resolveRenderable Walk.code key props renderable).Runs ds outcome) :
    Renders props key renderable ds outcome := by
  induction renderable generalizing key with
  | function name render =>
    rw [Walk.runs_ask.mp h]
    exact .function name render outcome
  | forwardRef name render =>
    rw [Walk.runs_ask.mp h]
    exact .forwardRef name render outcome
  | memo inner ih => exact .memo (ih h)
  | host tag =>
    obtain ⟨rfl, rfl⟩ := Walk.runs_pure.mp h
    exact .host tag
  | serverBlock block =>
    obtain ⟨rfl, rfl⟩ := Walk.runs_pure.mp h
    exact .serverBlock block
  | wrapper kind =>
    obtain ⟨rfl, rfl⟩ := Walk.runs_pure.mp h
    exact .wrapper kind
  | lazy =>
    obtain ⟨rfl, rfl⟩ := Walk.runs_pure.mp h
    exact .lazy
  | provider name =>
    obtain ⟨rfl, rfl⟩ := Walk.runs_pure.mp h
    exact .provider name
  | context name =>
    obtain ⟨rfl, rfl⟩ := Walk.runs_pure.mp h
    exact .context name

/-- The run of a walk at a place shows this document. -/
structure Document (strict : Bool) (place : Place κ) (ds : List (Deed κ))
    (o : Except RenderError (Option Json)) (s : Site κ) : Prop where
  shows : Shows strict place s
  deeds : s.deeds = ds
  outcome : refusedOr s.refusal? s.json = o

/-! ## Children -/

structure Documents (strict : Bool) (places : List (Place κ)) (ds : List (Deed κ))
    (o : Except RenderError (List (Option Json))) (ss : List (Site κ)) : Prop where
  shows : InTurn (Shows strict) places ss
  deeds : ss.flatMap Site.deeds = ds
  outcome : refusedOr (ss.findSome? Site.refusal?) (ss.map Site.json) = o

theorem Documents.nil : Documents (κ := κ) strict [] [] (.ok []) [] :=
  ⟨.nil, rfl, rfl⟩

theorem Documents.last {p : Place κ} {ps : List (Place κ)} {ds : List (Deed κ)} {e : RenderError}
    {s : Site κ} (h : Document strict p ds (.error e) s) :
    Documents strict (p :: ps) ds (.error e) (s :: ps.map fun _ => .unvisited) := by
  have hs := refusedOr_eq_error.mp h.outcome
  refine ⟨.last h.shows hs, ?_, ?_⟩
  · simp [h.deeds]
  · rw [List.findSome?_cons, hs]
    rfl

theorem Documents.next {p : Place κ} {ps : List (Place κ)} {ds ds' : List (Deed κ)}
    {j : Option Json} {o : Except RenderError (List (Option Json))} {s : Site κ} {ss : List (Site κ)}
    (h : Document strict p ds (.ok j) s) (hss : Documents strict ps ds' o ss) :
    Documents strict (p :: ps) (ds ++ ds') (o.map (j :: ·)) (s :: ss) := by
  obtain ⟨hs, rfl⟩ := refusedOr_eq_ok.mp h.outcome
  refine ⟨.next h.shows hs hss.shows, ?_, ?_⟩
  · rw [List.flatMap_cons, h.deeds, hss.deeds]
  · rw [List.findSome?_cons, hs, ← hss.outcome, map_refusedOr, List.map_cons]

theorem Documents.single {p : Place κ} {ds : List (Deed κ)} {o : Except RenderError (Option Json)}
    {s : Site κ} (h : Document strict p ds o s) :
    Documents strict [p] ds (o.map fun j => [j]) [s] := by
  cases o with
  | error e => exact .last h
  | ok j => exact List.append_nil ds ▸ .next h .nil

theorem overItems_documents {f : String → Model κ → RefusableWalk κ (Option Json)}
    (place : String → Model κ → Place κ)
    (hf : ∀ k x ds o, (f k x).run.Runs ds o → ∃ s, Document strict (place k x) ds o s)
    {i : Nat} {xs : List (Model κ)} {ds : List (Deed κ)} {o : Except RenderError (List Json)}
    (h : (overItems f i xs).run.Runs ds o) :
    ∃ o' ss, Documents strict ((xs.zipIdx i).map fun p => place (Nat.repr p.2) p.1) ds o' ss ∧
      o = o'.map (List.map orNull) := by
  induction xs generalizing i ds o with
  | nil =>
    obtain ⟨rfl, rfl⟩ := RefusableWalk.runs_pure.mp h
    exact ⟨_, [], .nil, rfl⟩
  | cons x xs ih =>
    rcases RefusableWalk.runs_bind.mp h with ⟨e, rfl, hx⟩ | ⟨j, ds₁, ds₂, hx, hrest, rfl⟩
    · obtain ⟨s, hs⟩ := hf _ _ _ _ hx
      exact ⟨.error e, _, .last hs, rfl⟩
    · obtain ⟨s, hs⟩ := hf _ _ _ _ hx
      obtain ⟨o₁, hxs, rfl⟩ := RefusableWalk.runs_bind_pure.mp hrest
      obtain ⟨o', ss, hss, rfl⟩ := ih hxs
      exact ⟨_, _, .next hs hss, by cases o' <;> rfl⟩

/-- The fields that are not undefined, under their keys. -/
def keyed (fs : List (String × Model κ)) (js : List (Option Json)) : List (String × Json) :=
  (fs.zip js).filterMap fun p => p.2.map fun j => (p.1.1, j)

theorem overFields_documents {f : String → Model κ → RefusableWalk κ (Option Json)}
    (place : String → Model κ → Place κ)
    (hf : ∀ k x ds o, (f k x).run.Runs ds o → ∃ s, Document strict (place k x) ds o s)
    {fs : List (String × Model κ)} {ds : List (Deed κ)}
    {o : Except RenderError (List (String × Json))} (h : (overFields f fs).run.Runs ds o) :
    ∃ o' ss, Documents strict (fs.map fun p => place p.1 p.2) ds o' ss ∧
      o = o'.map (keyed fs) := by
  induction fs generalizing ds o with
  | nil =>
    obtain ⟨rfl, rfl⟩ := RefusableWalk.runs_pure.mp h
    exact ⟨_, [], .nil, rfl⟩
  | cons p fs ih =>
    rcases RefusableWalk.runs_bind.mp h with ⟨e, rfl, hx⟩ | ⟨j, ds₁, ds₂, hx, hrest, rfl⟩
    · obtain ⟨s, hs⟩ := hf _ _ _ _ hx
      exact ⟨.error e, _, .last hs, rfl⟩
    · obtain ⟨s, hs⟩ := hf _ _ _ _ hx
      obtain ⟨o₁, hxs, rfl⟩ := RefusableWalk.runs_bind_pure.mp hrest
      obtain ⟨o', ss, hss, rfl⟩ := ih hxs
      refine ⟨_, _, .next hs hss, ?_⟩
      cases o' with
      | error e => rfl
      | ok js => cases j <;> rfl

theorem keyed_ofFields (r : Record (Model κ)) (js : List (Option Json)) :
    Json.ofFields (keyed r.entries js) = .object (keyed r.entries js) := by
  have hkeys : ((keyed r.entries js).map Prod.fst).Sublist (r.entries.map Prod.fst) := by
    generalize r.entries = fs
    induction fs generalizing js with
    | nil => exact .slnil
    | cons p fs ih =>
      cases js with
      | nil => exact List.nil_sublist _
      | cons j js =>
        cases j with
        | none => exact (ih js).cons _
        | some j => exact (ih js).cons_cons _
  exact Json.ofFields_of_nodup (hkeys.nodup r.nodup_entries)

/-! ## Positions -/

/-- The run shows what the value turns out to be, and the documents of its children. -/
def Finds (strict : Bool) (parent : Container κ) (key : String) (substituted : Bool)
    (value : Model κ) (ds : List (Deed κ)) (o : Except RenderError (Option Json)) : Prop :=
  ∃ own stop ss, Reaches strict parent key substituted value own stop ∧
    InTurn (Shows strict) stop.places ss ∧ own ++ ss.flatMap Site.deeds = ds ∧
    refusedOr (stop.refusal?.or (ss.findSome? Site.refusal?)) (stop.json (ss.map Site.json)) = o

namespace Finds

variable {parent : Container κ} {key : String} {substituted : Bool} {value : Model κ}
  {ds : List (Deed κ)} {o : Except RenderError (Option Json)} {stop : Stop κ}

theorem alone (h : Reaches strict parent key substituted value ds stop) (hp : stop.places = []) :
    Finds strict parent key substituted value ds (refusedOr stop.refusal? (stop.json [])) :=
  ⟨ds, stop, [], h, hp ▸ .nil, List.append_nil ds, by simp⟩

theorem leaf (hrun : Walk.Runs (pure (Serializer.leaf parent key value)) ds o)
    (h : Ends parent key value stop) (hp : stop.places = [])
    (hl : Serializer.leaf parent key value = refusedOr stop.refusal? (stop.json [])) :
    Finds strict parent key substituted value ds o := by
  obtain ⟨rfl, rfl⟩ := Walk.runs_pure.mp hrun
  rw [hl]
  exact .alone (.rest h) hp

theorem container (parent : Container κ) (key : String) (substituted : Bool)
    {o : Except RenderError (List (Option Json))} {ss : List (Site κ)}
    (h : Ends parent key value stop) (hs : stop.refusal? = none)
    (hd : Documents strict stop.places ds o ss) :
    Finds strict parent key substituted value ds (o.map stop.json) := by
  refine ⟨[], stop, ss, .rest h, hd.shows, hd.deeds, ?_⟩
  rw [hs, Option.none_or, ← hd.outcome, map_refusedOr]

/-- The value is found after some effects from which another value is found. -/
theorem after {substituted' : Bool} {value' : Model κ} (before : List (Deed κ))
    (h : Finds strict parent key substituted' value' ds o)
    (hreach : ∀ own stop, Reaches strict parent key substituted' value' own stop →
      Reaches strict parent key substituted value (before ++ own) stop) :
    Finds strict parent key substituted value (before ++ ds) o := by
  obtain ⟨own, stop, ss, hr, hss, rfl, rfl⟩ := h
  exact ⟨before ++ own, stop, ss, hreach own stop hr, hss, List.append_assoc _ _ _, rfl⟩

theorem document (place : Place κ) (before : List (Deed κ))
    (h : Finds strict parent key substituted value ds o)
    (harrive : ∀ own stop, Reaches strict parent key substituted value own stop →
      Arrives strict place (before ++ own) stop) :
    ∃ s, Document strict place (before ++ ds) o s := by
  obtain ⟨own, stop, ss, hr, hss, rfl, rfl⟩ := h
  exact ⟨.visited place (before ++ own) stop ss, .visit (harrive own stop hr) hss, by simp, by simp⟩

end Finds

theorem Document.reference {place : Place κ} {ds : List (Deed κ)} {id : RowId}
    (h : Arrives strict place ds (.written (some (referenceTo id)))) :
    Document strict place ds (.ok (some (referenceTo id)))
      (.visited place ds (.written (some (referenceTo id))) []) :=
  ⟨.visit h .nil, by simp, by simp [refusedOr, Stop.refusal?, Stop.json]⟩

theorem moduleSlot_document {walk : Model κ → RefusableWalk κ (Option Json)}
    (hwalk : ∀ value ds o, (walk value).run.Runs ds o →
      Finds strict (.whole value) "1" false value ds o) (m : ModuleReference)
    {found : Except RenderError Json} {ds : List (Deed κ)} {o : Except RenderError Json}
    (h : (moduleSlot (Walk.context strict) walk found).run.Runs ds o) :
    ∃ o' s, Document strict (.module m) (⟨.metadata m, found⟩ :: ds) o' s ∧ o = o'.map orNull := by
  cases found with
  | error err =>
    obtain ⟨o', hw, rfl⟩ := RefusableWalk.runs_map.mp h
    obtain ⟨id, rfl, hask⟩ := RefusableWalk.runs_lift.mp hw
    rw [Walk.runs_ask.mp hask]
    exact ⟨_, _, .reference (.missing m err id), rfl⟩
  | ok json =>
    obtain ⟨o', hw, rfl⟩ := RefusableWalk.runs_map.mp h
    obtain ⟨s, hs⟩ := (hwalk _ _ _ hw).document (.module m) [⟨.metadata m, .ok json⟩]
      fun _ _ hr => .found hr
    exact ⟨o', s, hs, rfl⟩

theorem dataSlot_document {walk : Model κ → RefusableWalk κ (Option Json)}
    (hwalk : ∀ value ds o, (walk value).run.Runs ds o →
      Finds strict (.whole value) "2" false value ds o) (load : Closure κ (Model κ))
    {outcome : Resolution κ (Model κ)} {ds : List (Deed κ)} {o : Except RenderError Json}
    (h : (dataSlot (Walk.context strict) walk load outcome).run.Runs ds o) :
    ∃ o' s, Document strict (.data load) (⟨.load load, outcome⟩ :: ds) o' s ∧
      o = o'.map orNull := by
  obtain ⟨value, rfl⟩ | ⟨t, rfl⟩ | ⟨err, rfl⟩ : (∃ value, outcome = .ready value) ∨
      (∃ t, outcome = .suspended t) ∨ ∃ err, outcome = .failed err := by
    cases outcome <;> simp
  · obtain ⟨o', hw, rfl⟩ := RefusableWalk.runs_map.mp h
    obtain ⟨s, hs⟩ := (hwalk _ _ _ hw).document (.data load) [⟨.load load, .ready value⟩]
      fun _ _ hr => .loaded hr
    exact ⟨o', s, hs, rfl⟩
  · obtain ⟨o', hw, rfl⟩ := RefusableWalk.runs_map.mp h
    obtain ⟨id, rfl, hask⟩ := RefusableWalk.runs_lift.mp hw
    rw [Walk.runs_ask.mp hask]
    exact ⟨_, _, .reference (.awaited load t id), rfl⟩
  · obtain ⟨o', hw, rfl⟩ := RefusableWalk.runs_map.mp h
    obtain ⟨id, rfl, hask⟩ := RefusableWalk.runs_lift.mp hw
    rw [Walk.runs_ask.mp hask]
    exact ⟨_, _, .reference (.failed load err id), rfl⟩

theorem position_finds (n : Nat) {parent : Container κ} {key : String} {substituted : Bool}
    {value : Model κ} {ds : List (Deed κ)} {o : Except RenderError (Option Json)}
    (h : (position Walk.code (Walk.context strict) n parent key substituted value).run.Runs ds o) :
    Finds strict parent key substituted value ds o := by
  induction n generalizing parent key substituted value ds o with
  | zero => cases h
  | succ n ih =>
    cases value with
    | custom typeName toModel =>
      cases substituted with
      | true =>
        obtain ⟨rfl, rfl⟩ := RefusableWalk.runs_throw.mp h
        exact .alone .secondCustom rfl
      | false =>
        cases strict with
        | true =>
          obtain ⟨⟨⟩, ds₁, hrest, rfl⟩ := RefusableWalk.runs_ask_bind.mp h
          obtain ⟨next, ds₂, hnext, rfl⟩ := RefusableWalk.runs_ask_bind.mp hrest
          exact (ih hnext).after [_, _] fun own stop hr => .custom next hr
        | false =>
          obtain ⟨next, ds₁, hnext, rfl⟩ := RefusableWalk.runs_ask_bind.mp h
          exact (ih hnext).after [_] fun own stop hr => .custom next hr
    | element e =>
      obtain ⟨outcome, ds₁, ds₂, hlayer, hrest, rfl⟩ := RefusableWalk.runs_lift_bind.mp h
      have hrenders := renders_of_runs hlayer
      cases outcome with
      | ready next => exact (ih hrest).after ds₁ fun own stop hr => .layer hrenders hr
      | failed err =>
        obtain ⟨rfl, rfl⟩ := RefusableWalk.runs_throw.mp hrest
        rw [List.append_nil]
        exact .alone (.failure hrenders) rfl
      | suspended t =>
        obtain ⟨id, ds₃, hend, rfl⟩ := RefusableWalk.runs_ask_bind.mp hrest
        obtain ⟨rfl, rfl⟩ := RefusableWalk.runs_pure.mp hend
        exact .alone (.deferral hrenders id) rfl
    | array items =>
      obtain ⟨o₁, hitems, rfl⟩ := RefusableWalk.runs_bind_pure.mp h
      obtain ⟨o', ss, hss, rfl⟩ := overItems_documents (Place.position (.items items))
        (fun k x ds o hx => (ih hx).document _ [] fun _ _ hr => .position hr) hitems
      have := Finds.container parent key substituted (.array items) rfl hss
      cases o' <;> exact this
    | record fields =>
      obtain ⟨o₁, hfields, rfl⟩ := RefusableWalk.runs_bind_pure.mp h
      obtain ⟨o', ss, hss, rfl⟩ := overFields_documents (Place.position (.fields fields))
        (fun k x ds o hx => (ih hx).document _ [] fun _ _ hr => .position hr) hfields
      have := Finds.container parent key substituted (.record fields) rfl hss
      cases o' with
      | error e => exact this
      | ok js =>
        change Finds _ _ _ _ _ _ (.ok (some (Json.ofFields (keyed fields.entries js))))
        rw [keyed_ofFields]
        exact this
    | serverBlock block =>
      obtain ⟨found, ds₁, hmodule, rfl⟩ := RefusableWalk.runs_ask_bind.mp h
      have hblock : ∀ {o ds ss}, Documents strict (Stop.block block).places ds o ss →
          Finds strict parent key substituted (.serverBlock block) ds
            (o.map (Stop.block block).json) :=
        fun hd => .container parent key substituted (.serverBlock block) rfl hd
      rcases RefusableWalk.runs_bind.mp hmodule with ⟨e, rfl, hx⟩ | ⟨j, ds₂, ds₃, hx, hload, rfl⟩
      · obtain ⟨_ | j, s, hs, ho⟩ := moduleSlot_document (fun _ _ _ => ih) block.module hx
        · cases ho
          exact hblock (.last hs)
        · cases ho
      obtain ⟨_ | j', s, hs, ho⟩ := moduleSlot_document (fun _ _ _ => ih) block.module hx
      · cases ho
      cases ho
      obtain ⟨outcome, ds₄, hdata, rfl⟩ := RefusableWalk.runs_ask_bind.mp hload
      obtain ⟨o₁, hslot, rfl⟩ := RefusableWalk.runs_bind_pure.mp hdata
      obtain ⟨o', s', hs', rfl⟩ := dataSlot_document (fun _ _ _ => ih) block.load hslot
      have := hblock (.next hs (.single hs'))
      cases o' <;> exact this
    | undefined => exact .leaf h .undefined rfl rfl
    | null => exact .leaf h .null rfl rfl
    | bool b => exact .leaf h (.bool b) rfl rfl
    | number d => exact .leaf h (.number d) rfl rfl
    | string s => exact .leaf h (.string s) rfl rfl
    | bigInt i => exact .leaf h (.bigInt i) rfl rfl
    | symbol d => exact .leaf h (.symbol d) rfl rfl
    | function f b => exact .leaf h (.function f b) rfl rfl
    | instanceOf c fs => exact .leaf h (.instanceOf c fs) rfl rfl
    | marker k =>
      cases k with
      | element => exact .leaf h .elementMark rfl rfl
      | serverBlock => exact .leaf h .blockMark rfl rfl
      | lazy => exact .leaf h .lazyMark rfl rfl
      | block => exact .leaf h .unknownMark rfl rfl

/-! ## Error rows -/

/-- The error that becomes a row of its own. -/
def Deed.emitted? : Deed κ → Option RenderError
  | ⟨.emitError e, _⟩ => some e
  | _ => none

/-- The error with which a module is not found or data is not loaded. -/
def Deed.missed? : Deed κ → Option RenderError
  | ⟨.metadata _, .error e⟩ => some e
  | ⟨.load _, .failed e⟩ => some e
  | _ => none

/-- Neither an error row nor a reason for one. -/
def Deed.Harmless (d : Deed κ) : Prop := d.emitted? = none ∧ d.missed? = none

theorem filterMap_harmless {ds : List (Deed κ)} (h : ∀ d ∈ ds, d.Harmless) :
    ds.filterMap Deed.emitted? = [] ∧ ds.filterMap Deed.missed? = [] :=
  ⟨List.filterMap_eq_nil_iff.mpr fun d hd => (h d hd).1,
    List.filterMap_eq_nil_iff.mpr fun d hd => (h d hd).2⟩

theorem Renders.harmless {props : Props κ} {key : Option String} {x : Renderable κ (Model κ)}
    {ds : List (Deed κ)} {outcome : Resolution κ (Model κ)}
    (h : Renders props key x ds outcome) : ∀ d ∈ ds, d.Harmless := by
  induction h with
  | function => simp [Deed.Harmless, Deed.emitted?, Deed.missed?]
  | forwardRef => simp [Deed.Harmless, Deed.emitted?, Deed.missed?]
  | memo _ ih => exact ih
  | _ => simp

theorem Reaches.harmless {parent : Container κ} {key : String} {substituted : Bool}
    {value : Model κ} {ds : List (Deed κ)} {stop : Stop κ}
    (h : Reaches strict parent key substituted value ds stop) : ∀ d ∈ ds, d.Harmless := by
  induction h with
  | rest => simp
  | layer h _ ih => exact fun d hd => (List.mem_append.mp hd).elim (h.harmless d) (ih d)
  | failure h => exact h.harmless
  | deferral h id =>
    refine fun d hd => (List.mem_append.mp hd).elim (h.harmless d) fun hd => ?_
    cases List.mem_singleton.mp hd
    exact ⟨rfl, rfl⟩
  | custom next _ ih =>
    intro d hd
    rcases List.mem_append.mp hd with hd | hd
    · split at hd
      · cases List.mem_singleton.mp hd
        exact ⟨rfl, rfl⟩
      · cases hd
    · rcases List.mem_cons.mp hd with rfl | hd
      · exact ⟨rfl, rfl⟩
      · exact ih d hd
  | secondCustom => simp

/-- At one place an error row is emitted for what is missed there, and for nothing else. -/
theorem Arrives.emitted {p : Place κ} {ds : List (Deed κ)} {stop : Stop κ}
    (h : Arrives strict p ds stop) : ds.filterMap Deed.emitted? = ds.filterMap Deed.missed? := by
  cases h with
  | position h =>
    obtain ⟨he, hm⟩ := filterMap_harmless h.harmless
    rw [he, hm]
  | found h =>
    obtain ⟨he, hm⟩ := filterMap_harmless h.harmless
    exact he.trans hm.symm
  | loaded h =>
    obtain ⟨he, hm⟩ := filterMap_harmless h.harmless
    exact he.trans hm.symm
  | missing => rfl
  | awaited => rfl
  | failed => rfl

theorem Shows.emitted {p : Place κ} {s : Site κ} (h : Shows strict p s) :
    s.deeds.filterMap Deed.emitted? = s.deeds.filterMap Deed.missed? := by
  have hvisits : ∀ vs : List (Arrival κ), (∀ v ∈ vs, Arrives strict v.place v.deeds v.stop) →
      (vs.flatMap Arrival.deeds).filterMap Deed.emitted? =
        (vs.flatMap Arrival.deeds).filterMap Deed.missed? := by
    intro vs hvs
    induction vs with
    | nil => rfl
    | cons v vs ih =>
      rw [List.flatMap_cons, List.filterMap_append, List.filterMap_append,
        (hvs v List.mem_cons_self).emitted, ih fun w hw => hvs w (List.mem_cons_of_mem v hw)]
  exact hvisits s.visits h.arrives

/-! ## The whole walk -/

theorem InTurn.length_eq {shows : Place κ → Site κ → Prop} {ps : List (Place κ)}
    {ss : List (Site κ)} (h : InTurn shows ps ss) : ss.length = ps.length := by
  induction h with
  | nil => rfl
  | next _ _ _ ih => rw [List.length_cons, List.length_cons, ih]
  | last _ _ => rw [List.length_cons, List.length_cons, List.length_map]

/-- An array has as many items as its model, and each undefined one is null. -/
theorem Shows.array {p : Place κ} {ds : List (Deed κ)} {items : List (Model κ)}
    {ss : List (Site κ)} (h : Shows strict p (.visited p ds (.items items) ss)) :
    ss.length = items.length ∧ (Site.visited p ds (.items items) ss).json =
      some (.array (ss.map fun s => orNull s.json)) := by
  cases h with
  | visit _ hc => exact ⟨by simpa [Stop.places] using hc.length_eq, by simp [Stop.json]⟩

/-- A record has the fields of its model in their order, but for those that are undefined. -/
theorem Shows.record {p : Place κ} {ds : List (Deed κ)} {fields : Record (Model κ)}
    {ss : List (Site κ)} (h : Shows strict p (.visited p ds (.fields fields) ss)) :
    ss.length = fields.entries.length ∧ (Site.visited p ds (.fields fields) ss).json =
      some (.object ((fields.entries.zip ss).filterMap fun field =>
        field.2.json.map fun j => (field.1.1, j))) := by
  cases h with
  | visit _ hc =>
    refine ⟨by simpa [Stop.places] using hc.length_eq, ?_⟩
    rw [Site.json_visited, Stop.json, List.zip_map_right, List.filterMap_map]
    rfl

theorem Stop.refusal?_eq_some {stop : Stop κ} {e : RenderError} :
    stop.refusal? = some e ↔ stop = .refused e := by
  cases stop <;> simp [Stop.refusal?]

theorem Shows.refusal?_eq_some {p : Place κ} {s : Site κ} (h : Shows strict p s)
    {e : RenderError} : s.refusal? = some e ↔ ∃ v ∈ s.visits, v.stop = .refused e := by
  refine ⟨fun he => ?_, fun ⟨v, hv, hstop⟩ => ?_⟩
  · obtain ⟨v, hv, hstop⟩ := List.exists_of_findSome?_eq_some he
    exact ⟨v, hv, Stop.refusal?_eq_some.mp hstop⟩
  · have hstop' := Stop.refusal?_eq_some.mpr hstop
    obtain ⟨before, after, hsplit⟩ := List.append_of_mem hv
    have hpairs := hsplit ▸ h.halts
    have hbefore : before.findSome? (fun v => v.stop.refusal?) = none :=
      List.findSome?_eq_none_iff.mpr fun w hw =>
        (List.pairwise_append.mp hpairs).2.2 w hw v List.mem_cons_self
    rw [Site.refusal?, hsplit, List.findSome?_append, hbefore, Option.none_or,
      List.findSome?_cons, hstop']

namespace Serializer

def walk (strict : Bool) (n : Nat) (parent : Container κ) (key : String) (value : Model κ) :
    Walk κ (Except RenderError (Option Json)) :=
  (position Walk.code (Walk.context strict) n parent key false value).run

/-- The walk over a whole model, to its text. -/
def wholeWalk (strict : Bool) (n : Nat) (value : Model κ) : Walk κ (Except RenderError String) :=
  (serialize Walk.code (Walk.context strict) n value).run

theorem walk_document {n : Nat} {parent : Container κ} {key : String} {value : Model κ}
    {ds : List (Deed κ)} {o : Except RenderError (Option Json)}
    (h : (walk strict n parent key value).Runs ds o) :
    ∃ s, Document strict (.position parent key value) ds o s :=
  (position_finds n h).document _ [] fun _ _ hr => .position hr

theorem wholeWalk_runs {n : Nat} {value : Model κ} {ds : List (Deed κ)}
    {o : Except RenderError String} :
    (wholeWalk strict n value).Runs ds o ↔
      ∃ o', (walk strict n (.whole value) "" value).Runs ds o' ∧
        o = o'.map fun j => (orNull j).text :=
  RefusableWalk.runs_bind_pure

/-- In every monad the serializer performs its walk. Each run of the walk shows a document: its
effects are those of the visits, which go through the document in order and stop after a refusal. The
run is refused as the one place that is refused tells, and otherwise gives the JSON of the document,
in which arrays keep their items and records lose just their undefined fields. What is missed becomes
one error row each, and at the top undefined is null. -/
theorem document_in_order {m : Type → Type} [Monad m] [LawfulMonad m] [GivesUp m]
    (hm : Absorbs fun α => (giveUp : m α)) (code : CodeEffects κ m) (ctx : SerializerContext κ m) (n : Nat)
    (parent : Container κ) (key : String) (value : Model κ) :
    (position code ctx n parent key false value).run =
        (walk ctx.strict n parent key value).perform code ctx (fun _ => giveUp) ∧
      (serialize code ctx n value).run =
        (wholeWalk ctx.strict n value).perform code ctx (fun _ => giveUp) ∧
      (∀ ds o, (wholeWalk ctx.strict n value).Runs ds o ↔
        ∃ o', (walk ctx.strict n (.whole value) "" value).Runs ds o' ∧
          o = o'.map fun j => (orNull j).text) ∧
      (∀ (p : Place κ) ds items ss, Shows ctx.strict p (.visited p ds (.items items) ss) →
        ss.length = items.length ∧ (Site.visited p ds (.items items) ss).json =
          some (.array (ss.map fun s => orNull s.json))) ∧
      (∀ (p : Place κ) ds fields ss, Shows ctx.strict p (.visited p ds (.fields fields) ss) →
        ss.length = fields.entries.length ∧ (Site.visited p ds (.fields fields) ss).json =
          some (.object ((fields.entries.zip ss).filterMap fun field =>
            field.2.json.map fun j => (field.1.1, j)))) ∧
      ∀ ds o, (walk ctx.strict n parent key value).Runs ds o →
        ∃ s, Shows ctx.strict (.position parent key value) s ∧
          ds = s.visits.flatMap Arrival.deeds ∧
          (s.visits.Pairwise fun v w => v.path < w.path ∧ v.stop.refusal? = none) ∧
          (∀ v ∈ s.visits, Arrives ctx.strict v.place v.deeds v.stop) ∧
          (∀ e, o = .error e ↔ ∃ v ∈ s.visits, v.stop = .refused e) ∧
          (∀ j, o = .ok j ↔ (∀ v ∈ s.visits, v.stop.refusal? = none) ∧ s.json = j) ∧
          ds.filterMap Deed.emitted? = ds.filterMap Deed.missed? := by
  refine ⟨position_perform hm n parent key false value, serialize_perform hm n value,
    fun ds o => wholeWalk_runs, fun _ _ _ _ => Shows.array, fun _ _ _ _ => Shows.record,
    fun ds o h => ?_⟩
  obtain ⟨s, hs⟩ := walk_document h
  have ho := hs.outcome
  refine ⟨s, hs.shows, hs.deeds.symm, s.visits_sorted.and hs.shows.halts, hs.shows.arrives,
    fun e => ?_, fun j => ?_, hs.deeds ▸ hs.shows.emitted⟩
  · rw [← ho, refusedOr_eq_error, hs.shows.refusal?_eq_some]
  · rw [← ho, refusedOr_eq_ok, Site.unrefused_iff]

end Serializer

/-! ## A refusal in the middle

An array of a client block whose module is not found, a component that renders nothing, a function,
and the component again. -/

namespace Mixed

def blank : Model Unit :=
  .element { renderable := .function "Blank" ⟨(), .empty⟩, key := none, props := .empty }

def block : ServerBlock Unit (Model Unit) where
  module := { id := "card", path := "./card.js", exports := [] }
  load := ⟨(), .empty⟩

def items : List (Model Unit) :=
  [.serverBlock block, blank, .function none ⟨(), .empty⟩, blank]

def code : CodeEffects Unit Option where
  render _ _ _ := some (.ready .undefined)
  load _ := some (.ready .undefined)
  toModel _ := some .null

def context : SerializerContext Unit Option where
  suspend _ _ := some (RowId.ofNat 1)
  emitError _ := some (RowId.ofNat 1)
  metadata _ := some (.error .unsupportedBlock)
  strict := false
  warn _ := some ()

def deeds : List (Deed Unit) :=
  [⟨.metadata block.module, .error .unsupportedBlock⟩, ⟨.emitError .unsupportedBlock, RowId.ofNat 1⟩,
    ⟨.load block.load, .ready .undefined⟩, ⟨.render ⟨(), .empty⟩ .empty none, .ready .undefined⟩]

theorem absorbs_option : Absorbs fun α => (giveUp : Option α) := fun _ _ _ => rfl

theorem runs : (Serializer.walk false 4 (.whole (.array items)) "" (.array items)).Runs deeds
    (.error (Refusal.function (.items items) "2" none)) :=
  .ask _ (.ask _ (.ask _ (.ask _ (.done _))))

/-- The function is refused, and the component behind it is not rendered any more. -/
theorem document_in_order_refused :
    (Absorbs fun α => (giveUp : Option α)) ∧
      (Serializer.walk false 4 (.whole (.array items)) "" (.array items)).Runs deeds
        (.error (Refusal.function (.items items) "2" none)) ∧
      ∃ s, Shows false (.position (.whole (.array items)) "" (.array items)) s ∧
        deeds = s.visits.flatMap Arrival.deeds ∧
        ∃ v ∈ s.visits, v.stop = .refused (Refusal.function (.items items) "2" none) := by
  obtain ⟨-, -, -, -, -, hruns⟩ := Serializer.document_in_order absorbs_option code context 4
    (.whole (.array items)) "" (.array items)
  obtain ⟨s, hs, hdeeds, -, -, herror, -⟩ := hruns deeds _ runs
  exact ⟨absorbs_option, runs, s, hs, hdeeds, (herror _).mp rfl⟩

end Mixed

end TreeStream
