import TreeStream.Proofs.Reentrance
import TreeStream.Proofs.Resumption

/-!
# Custom values are replaced once

What stands at a place may be a custom value, and so may be what that gives. While a place is
visited the serializer remembers that it has replaced one custom value and refuses the next. It
remembers it for the visit only: an element that has to wait leaves the place to a segment of its
own, which hands its value to the serializer as if nothing had been replaced before. So the legs of
a place, which are its first visit and the visits in which it is resumed, replace one custom value
each.
-/

namespace TreeStream

variable {κ σ : Type}

open Serializer

/-- A custom value is replaced by the model it gives. -/
def Deed.substitutes : Deed κ → Bool
  | ⟨.toModel _, _⟩ => true
  | _ => false

/-- Elements that need not wait lead from one value to the other. -/
inductive Conveys : Model κ → List (Deed κ) → Model κ → Prop
  | here (value : Model κ) : Conveys value [] value
  | layer {ds ds' next value} {e : Element κ (Model κ)}
    (h : Renders e.props e.key e.renderable ds (.ready next)) (hs : Conveys next ds' value) :
    Conveys (.element e) (ds ++ ds') value

variable {strict substituted : Bool} {parent : Container κ} {key : String} {value next : Model κ}
  {ds ds' before after : List (Deed κ)} {stop : Stop κ} {code : Closure κ (Model κ)}

/-! ## One visit -/

theorem Renders.substitutes {props : Props κ} {key : Option String} {x : Renderable κ (Model κ)}
    {outcome : Resolution κ (Model κ)} (h : Renders props key x ds outcome) :
    ∀ d ∈ ds, d.substitutes = false := by
  induction h with
  | function => exact fun d hd => List.mem_singleton.mp hd ▸ rfl
  | forwardRef => exact fun d hd => List.mem_singleton.mp hd ▸ rfl
  | memo _ ih => exact ih
  | _ => exact List.forall_mem_nil _

theorem Renders.substitutes_deferral {props : Props κ} {key : Option String}
    {x : Renderable κ (Model κ)} {outcome : Resolution κ (Model κ)}
    (h : Renders props key x ds outcome) (query : Query κ) (t : Thenable κ) (id : RowId) :
    ∀ d ∈ ds ++ [⟨.suspend query t, id⟩], d.substitutes = false := by
  intro d hd
  rcases List.mem_append.mp hd with hd | hd
  · exact h.substitutes d hd
  · exact List.mem_singleton.mp hd ▸ rfl

/-- How an element is resolved is seen from what is done. -/
theorem Renders.unique {props : Props κ} {key : Option String} {x : Renderable κ (Model κ)}
    {outcome outcome' : Resolution κ (Model κ)} {all : List (Deed κ)}
    (h : Renders props key x ds outcome) (h' : Renders props key x ds' outcome')
    (hds : ds <+: all) (hds' : ds' <+: all) : ds = ds' ∧ outcome = outcome' := by
  induction h with
  | memo _ ih =>
    cases h' with
    | memo h' => exact ih h' hds
  | function | forwardRef =>
    cases h'
    obtain ⟨rest, rfl⟩ := hds
    obtain ⟨rest', hall⟩ := hds'
    cases (List.cons.inj hall).1
    exact ⟨rfl, rfl⟩
  | _ =>
    cases h'
    exact ⟨rfl, rfl⟩

theorem Reaches.not_substitutes (h : Reaches strict parent key true value ds stop) :
    ∀ d ∈ ds, d.substitutes = false := by
  generalize hsubstituted : true = substituted at h
  induction h with
  | rest => exact List.forall_mem_nil _
  | layer h _ ih =>
    exact fun d hd => (List.mem_append.mp hd).elim (h.substitutes d) (ih hsubstituted d)
  | failure h => exact h.substitutes
  | deferral h id => exact h.substitutes_deferral _ _ id
  | custom => cases hsubstituted
  | secondCustom => exact List.forall_mem_nil _

/-- After a custom value was replaced, the visit goes on from its model. -/
theorem Reaches.of_substitution (h : Reaches strict parent key substituted value ds stop)
    (hds : ds = before ++ ⟨.toModel code, next⟩ :: after) :
    (∀ d ∈ before, d.substitutes = false) ∧ Reaches strict parent key true next after stop := by
  have hmem : ∀ {ds : List (Deed κ)}, (∀ d ∈ ds, d.substitutes = false) →
      (⟨.toModel code, next⟩ : Deed κ) ∉ ds := fun hnone hmem => nomatch hnone _ hmem
  have hnot : ∀ {ds before after : List (Deed κ)}, ds = before ++ ⟨.toModel code, next⟩ :: after →
      ¬ ∀ d ∈ ds, d.substitutes = false := fun hds hnone =>
    hmem hnone (hds ▸ List.mem_append_right _ List.mem_cons_self)
  induction h generalizing before with
  | rest => exact (hnot hds (List.forall_mem_nil _)).elim
  | @layer _ ds₁ ds₂ _ _ _ h _ ih =>
    rcases List.append_eq_append_iff.mp hds with ⟨between, rfl, hds₂⟩ | ⟨between, hds₁, hrest⟩
    · obtain ⟨hbetween, hreaches⟩ := ih hds₂
      exact ⟨fun d hd => (List.mem_append.mp hd).elim (h.substitutes d) (hbetween d), hreaches⟩
    · cases between with
      | nil =>
        have hbare : ds₂ = [] ++ ⟨.toModel code, next⟩ :: after := hrest.symm
        obtain ⟨-, hreaches⟩ := ih hbare
        rw [List.append_nil] at hds₁
        exact ⟨hds₁ ▸ h.substitutes, hreaches⟩
      | cons d between =>
        cases (List.cons.inj hrest).1
        exact (hnot hds₁ h.substitutes).elim
  | failure h => exact (hnot hds h.substitutes).elim
  | deferral h id => exact (hnot hds (h.substitutes_deferral _ _ id)).elim
  | @custom _ code' _ _ next' hs ih =>
    have hwarned : ∀ d ∈ if strict then
        [(⟨.warn (Refusal.customWarning parent key), ()⟩ : Deed κ)] else [],
        d.substitutes = false := by
      intro d hd
      split at hd
      · exact List.mem_singleton.mp hd ▸ rfl
      · cases hd
    obtain ⟨rfl, hdeed, rfl⟩ := (List.append_cons_inj_of_notMem (hmem hwarned)
      (hmem hs.not_substitutes)).mp hds
    cases hdeed
    exact ⟨hwarned, hs⟩
  | secondCustom => exact (hnot hds (List.forall_mem_nil _)).elim

/-- A custom value that is come to after one was replaced is refused, and nothing else is done. -/
theorem Reaches.refused_of_conveys {typeName : String} {all : List (Deed κ)}
    (h : Reaches strict parent key true value all stop)
    (hconveys : Conveys value ds (.custom typeName code)) (hds : ds <+: all) :
    all = ds ∧ stop = .refused (Refusal.secondCustom parent key typeName) := by
  generalize hcustom : Model.custom typeName code = custom at hconveys
  induction hconveys generalizing all with
  | here =>
    subst hcustom
    cases h with
    | rest h => cases h
    | secondCustom => exact ⟨rfl, rfl⟩
  | @layer ds₁ ds₂ next _ e hrenders hs ih =>
    have hds₁ : ds₁ <+: all := (List.prefix_append ds₁ ds₂).trans hds
    cases h with
    | rest h => cases h
    | @layer _ ds₃ ds₄ _ next' _ hrenders' hs' =>
      obtain ⟨rfl, hready⟩ := hrenders.unique hrenders' hds₁ (List.prefix_append _ _)
      cases hready
      obtain ⟨rfl, hstop⟩ := ih hs' ((List.prefix_append_right_inj _).mp hds) hcustom
      exact ⟨rfl, hstop⟩
    | failure hrenders' => cases (hrenders.unique hrenders' hds₁ List.prefix_rfl).2
    | deferral hrenders' =>
      cases (hrenders.unique hrenders' hds₁ (List.prefix_append _ _)).2

theorem countP_substitutes_eq_zero (h : ∀ d ∈ ds, d.substitutes = false) :
    ds.countP Deed.substitutes = 0 := by
  refine List.countP_eq_zero.mpr fun d hd => ?_
  rw [h d hd]
  exact Bool.false_ne_true

/-- At one visit of a place at most one custom value is replaced: what its model leads to is refused
if it is custom again. -/
theorem Arrives.of_substitution {p : Place κ} (h : Arrives strict p ds stop)
    (hds : ds = before ++ ⟨.toModel code, next⟩ :: after) :
    (∀ d ∈ before, d.substitutes = false) ∧
      ∃ parent key, Reaches strict parent key true next after stop := by
  have hslot : ∀ {d : Deed κ} {ds : List (Deed κ)} {parent key value},
      d.substitutes = false → Reaches strict parent key false value ds stop →
      d :: ds = before ++ ⟨.toModel code, next⟩ :: after →
      (∀ d ∈ before, d.substitutes = false) ∧
        ∃ parent key, Reaches strict parent key true next after stop := by
    intro d ds parent key value hd hreaches hds
    rcases List.cons_eq_append_iff.mp hds with ⟨rfl, heq⟩ | ⟨before', rfl, hrest⟩
    · cases (List.cons.inj heq).1
      cases hd
    · obtain ⟨hbefore, hafter⟩ := hreaches.of_substitution hrest
      exact ⟨List.forall_mem_cons.mpr ⟨hd, hbefore⟩, _, _, hafter⟩
  have hmem : (⟨.toModel code, next⟩ : Deed κ) ∈ ds :=
    hds ▸ List.mem_append_right _ List.mem_cons_self
  cases h with
  | position h =>
    obtain ⟨hbefore, hafter⟩ := h.of_substitution hds
    exact ⟨hbefore, _, _, hafter⟩
  | found h => exact hslot rfl h hds
  | loaded h => exact hslot rfl h hds
  | missing => simp at hmem
  | awaited => simp at hmem
  | failed => simp at hmem

theorem Arrives.countP_substitutes {p : Place κ} (h : Arrives strict p ds stop) :
    ds.countP Deed.substitutes ≤ 1 := by
  by_cases hsome : ∃ d ∈ ds, d.substitutes = true
  · obtain ⟨⟨effect, reply⟩, hmem, hd⟩ := hsome
    cases effect <;> cases hd
    obtain ⟨before, after, hds⟩ := List.append_of_mem hmem
    obtain ⟨hbefore, parent, key, hafter⟩ := h.of_substitution hds
    rw [hds, List.countP_append, countP_substitutes_eq_zero hbefore, List.countP_cons,
      countP_substitutes_eq_zero hafter.not_substitutes]
    exact Nat.le_refl 1
  · rw [countP_substitutes_eq_zero fun d hd => by simpa using fun hsub => hsome ⟨d, hd, hsub⟩]
    exact Nat.zero_le 1

/-! ## The legs of a place -/

/-- A visit, what was done for the request before it, and what the serializer answers for the value
in which the place was found. -/
structure Leg (κ : Type) where
  before : List (Deed κ)
  visit : Arrival κ
  outcome : Except RenderError String

namespace Leg

/-- The visit happens when the value of the segment is handed to the serializer. -/
inductive IsOf (trials : List (Trial κ)) (s : SegmentId) : Leg κ → Prop
  | mk {strict : Bool} {earlier later : List (Trial κ)} {layers below : List (Layer κ)}
    {value : Model κ} {ds : List (Deed κ)} {o : Except RenderError (Option Json)} {site : Site κ}
    {visits visits' : List (Arrival κ)} {v : Arrival κ}
    (htrials : trials = earlier ++
      ⟨s, layers ++ .handed value ds (o.map fun j => (orNull j).text) :: below⟩ :: later)
    (hsite : Document strict (.position (.whole value) "" value) ds o site)
    (hvisits : site.visits = visits ++ v :: visits') :
    IsOf trials s
      { before := earlier.flatMap Trial.deeds ++
          (layers.flatMap Layer.deeds ++ visits.flatMap Arrival.deeds)
        visit := v
        outcome := o.map fun j => (orNull j).text }

/-- How many custom values are replaced. -/
def substitutions (leg : Leg κ) : Nat := leg.visit.deeds.countP Deed.substitutes

/-- After a custom value was replaced no other one is; one that its model leads to is refused, and
the whole value with it. -/
def RefusesSecond (leg : Leg κ) : Prop :=
  ∀ before code next after, leg.visit.deeds = before ++ ⟨.toModel code, next⟩ :: after →
    (∀ d ∈ before ++ after, d.substitutes = false) ∧
    ∀ ds typeName code', ds <+: after → Conveys next ds (.custom typeName code') →
      after = ds ∧ ∃ (parent : Container κ) (key : String),
        leg.visit.stop = .refused (Refusal.secondCustom parent key typeName) ∧
        leg.outcome = .error (Refusal.secondCustom parent key typeName)

/-- What the place has to wait for, if the visit does not end there. -/
def deferred? (leg : Leg κ) : Option (Query κ) := leg.visit.deeds.findSome? Deed.deferred?

/-- The segment to which the place is left then. -/
def made (leg : Leg κ) : SegmentId := ⟨(leg.before.filterMap Deed.deferred?).length + 1⟩

/-- A custom value was replaced, and the place has to wait. -/
def forgets (leg : Leg κ) : Bool := leg.deferred?.isSome && 0 < leg.substitutions

/-- The place has to wait, and is visited again at the top of the segment to which it is left. -/
def ResumedBy (trials : List (Trial κ)) (leg leg' : Leg κ) : Prop :=
  leg.deferred?.isSome = true ∧ leg'.IsOf trials leg.made ∧ leg'.visit.path = []

variable {trials : List (Trial κ)} {s : SegmentId} {leg : Leg κ}

theorem IsOf.arrives (h : leg.IsOf trials s) :
    ∃ strict, Arrives strict leg.visit.place leg.visit.deeds leg.visit.stop := by
  obtain ⟨-, hsite, hvisits⟩ := h
  exact ⟨_, hsite.shows.arrives _ (hvisits ▸ List.mem_append_right _ List.mem_cons_self)⟩

theorem IsOf.substitutions_le (h : leg.IsOf trials s) : leg.substitutions ≤ 1 := by
  obtain ⟨strict, harrives⟩ := h.arrives
  exact harrives.countP_substitutes

theorem IsOf.refused {e : RenderError} (h : leg.IsOf trials s)
    (hstop : leg.visit.stop = .refused e) : leg.outcome = .error e := by
  obtain ⟨-, hsite, hvisits⟩ := h
  have hrefused := hsite.shows.refusal?_eq_some.mpr
    ⟨_, hvisits ▸ List.mem_append_right _ List.mem_cons_self, hstop⟩
  rw [← hsite.outcome, hrefused]
  rfl

theorem IsOf.refusesSecond (h : leg.IsOf trials s) : leg.RefusesSecond := by
  intro before code next after hdeeds
  obtain ⟨strict, harrives⟩ := h.arrives
  obtain ⟨hbefore, parent, key, hafter⟩ := harrives.of_substitution hdeeds
  refine ⟨fun d hd => (List.mem_append.mp hd).elim (hbefore d) (hafter.not_substitutes d),
    fun ds typeName code' hds hconveys => ?_⟩
  obtain ⟨hend, hstop⟩ := hafter.refused_of_conveys hconveys hds
  exact ⟨hend, parent, key, hstop, h.refused hstop⟩

theorem IsOf.deeds (h : leg.IsOf trials s) :
    ∃ after, trials.flatMap Trial.deeds = leg.before ++ leg.visit.deeds ++ after := by
  obtain ⟨rfl, hsite, hvisits⟩ := h
  simp only [List.flatMap_append, List.flatMap_cons, Trial.deeds, Layer.deeds, ← hsite.deeds,
    Site.deeds, hvisits, List.append_assoc]
  exact ⟨_, rfl⟩

/-- The segment to which a place is left starts from what the place has to wait for. -/
theorem IsOf.start {query root : Query κ} (h : leg.IsOf trials s)
    (hquery : leg.deferred? = some query) :
    (root :: Trial.deferred trials)[leg.made.index]? = some query := by
  obtain ⟨after, hdeeds⟩ := h.deeds
  have hdeferred : Trial.deferred trials =
      leg.before.filterMap Deed.deferred? ++
        (leg.visit.deeds.filterMap Deed.deferred? ++ after.filterMap Deed.deferred?) := by
    rw [← List.filterMap_append, ← List.filterMap_append, ← List.append_assoc, ← hdeeds,
      List.filterMap_flatMap]
    rfl
  have hhead : (leg.visit.deeds.filterMap Deed.deferred?).head? = some query := by
    rw [List.head?_filterMap]
    exact hquery
  rw [hdeferred, made, List.getElem?_cons_succ, List.getElem?_append_right (Nat.le_refl _),
    Nat.sub_self, ← List.head?_eq_getElem?, List.head?_append, hhead]
  rfl

/-- Over its legs a place has one custom value replaced, and one more for each leg that had replaced
one when the place had to wait. -/
theorem sum_substitutions {first : Leg κ} {rest : List (Leg κ)} (hfirst : first.IsOf trials s)
    (hchain : (first :: rest).IsChain (ResumedBy trials)) :
    ((first :: rest).map substitutions).sum ≤ 1 + (first :: rest).countP forgets := by
  induction rest generalizing first s with
  | nil => simpa using Nat.le_add_right_of_le hfirst.substitutions_le
  | cons next rest ih =>
    obtain ⟨⟨hwaits, hnext, -⟩, hrest⟩ := List.isChain_cons_cons.mp hchain
    have hlater := ih hnext hrest
    have hforgets : first.substitutions ≤ if first.forgets = true then 1 else 0 := by
      by_cases hsome : 0 < first.substitutions
      · simpa [forgets, hwaits, hsome] using hfirst.substitutions_le
      · rw [Nat.eq_zero_of_not_pos hsome]
        exact Nat.zero_le _
    rw [List.map_cons, List.sum_cons, List.countP_cons]
    omega

end Leg

/-! ## All work on a request -/

/-- A layer of a descent is one that can happen at some query. -/
theorem Descent.isAt {query : Query κ} {layers : List (Layer κ)} {stand : Option (Query κ)}
    (h : Descent query layers stand) : ∀ layer ∈ layers, ∃ query', layer.IsAt query' := by
  induction h with
  | stay => exact List.forall_mem_nil _
  | stop hat => exact fun layer hl => List.mem_singleton.mp hl ▸ ⟨_, hat⟩
  | move hat _ _ ih => exact List.forall_mem_cons.mpr ⟨⟨_, hat⟩, ih⟩

namespace Chronicle

variable {user : UserCode κ σ} {r : RequestId} {root : Query κ} {log : List Event}
  {q : Request κ} {trials : List (Trial κ)} {t : Trial κ} {layer : Layer κ}

theorem descent (hc : Chronicle user r root log q trials) {s : SegmentId} {start : Query κ}
    (hstart : (root :: Trial.deferred trials)[s.index]? = some start) :
    ∃ stand, q.stands[s.index]? = some stand ∧ Descent start (Trial.layersOf s trials) stand := by
  have hlt : s.index < q.stands.length := by
    rw [q.length_stands, hc.starts]
    exact (List.getElem?_eq_some_iff.mp hstart).1
  exact ⟨_, List.getElem?_eq_getElem hlt,
    hc.descents s start _ hstart (List.getElem?_eq_getElem hlt)⟩

theorem isAt (hc : Chronicle user r root log q trials) (ht : t ∈ trials) (hl : layer ∈ t.layers) :
    ∃ query, layer.IsAt query := by
  have hlt : t.segment.index < (root :: Trial.deferred trials).length := hc.starts ▸ hc.tried t ht
  obtain ⟨stand, -, hdescent⟩ := hc.descent (List.getElem?_eq_getElem hlt)
  refine hdescent.isAt layer (List.mem_flatMap.mpr ⟨t, ?_, hl⟩)
  exact List.mem_filter.mpr ⟨ht, decide_eq_true rfl⟩

/-- Nothing is replaced before a value is handed to the serializer. -/
theorem not_substitutes (hc : Chronicle user r root log q trials) (ht : t ∈ trials)
    (hl : layer ∈ t.layers) (hhanded : layer.isHanded = false) :
    ∀ d ∈ layer.deeds, d.substitutes = false := by
  obtain ⟨query, hat⟩ := hc.isAt ht hl
  cases hat with
  | loaded => exact fun d hd => List.mem_singleton.mp hd ▸ rfl
  | resolved h => exact h.substitutes
  | handed => cases hhanded

/-- A value that is handed to the serializer shows a document. -/
theorem document (hc : Chronicle user r root log q trials) (ht : t ∈ trials) {value : Model κ}
    {ds : List (Deed κ)} {outcome : Except RenderError String}
    (hl : .handed value ds outcome ∈ t.layers) :
    ∃ strict o site, Document strict (.position (.whole value) "" value) ds o site ∧
      outcome = o.map fun j => (orNull j).text := by
  obtain ⟨query, hat⟩ := hc.isAt ht hl
  cases hat with
  | @handed strict _ _ _ _ _ hruns =>
    obtain ⟨o, hwalk, rfl⟩ := wholeWalk_runs.mp hruns
    obtain ⟨site, hsite⟩ := walk_document hwalk
    exact ⟨strict, o, site, hsite, rfl⟩

end Chronicle

namespace Host

/-- Whatever user code, thenables and destinations do: if a request is made from a model and none of
its passes is ever nested, then in every later state its work is a list of trials. Custom values are
replaced only when a value is handed to the serializer, where a document is visited. At each visit
of a place at most one is replaced, and one that its model leads to is refused, and the whole value
with it. A place that has to wait is left to a segment that goes on from there. So over all its
legs a place has one custom value replaced, unless one was replaced already when it had to wait:
each such leg allows for one more. -/
theorem substituted_once (user : UserCode κ σ) {h₀ h₁ h : Host κ σ} {r : RequestId}
    {settings : RequestSettings κ} {model : Model κ} (hr : Reachable user (fun _ => True) h₀)
    (hnone : h₀.requests[r.index]? = none) (hmade : Step user (fun _ => True) h₀ h₁)
    (hmodel : h₁.requests[r.index]? = some (.ofModel settings model))
    (hsteps : Relation.ReflTransGen (Step user fun _ => True) h₁ h) (hu : h.Unnested r) :
    ∃ q trials, h.requests[r.index]? = some q ∧
      Chronicle user r (.model model) h.journal q trials ∧
      (∀ t ∈ trials, ∀ layer ∈ t.layers, layer.isHanded = false →
        ∀ d ∈ layer.deeds, d.substitutes = false) ∧
      (∀ t ∈ trials, ∀ value ds outcome, .handed value ds outcome ∈ t.layers →
        ∃ strict o site, Document strict (.position (.whole value) "" value) ds o site ∧
          outcome = o.map fun j => (orNull j).text) ∧
      (∀ (s : SegmentId) (leg : Leg κ), leg.IsOf trials s →
        leg.substitutions ≤ 1 ∧ leg.RefusesSecond ∧
        ∀ query, leg.deferred? = some query → ∃ stand, q.stands[leg.made.index]? = some stand ∧
          Descent query (Trial.layersOf leg.made trials) stand) ∧
      ∀ (s : SegmentId) (first : Leg κ) rest, first.IsOf trials s →
        (first :: rest).IsChain (Leg.ResumedBy trials) →
        ((first :: rest).map Leg.substitutions).sum ≤ 1 + (first :: rest).countP Leg.forgets := by
  obtain ⟨q, trials, hq, hc⟩ := exists_chronicle hr hnone hmade hmodel hsteps hu
  refine ⟨q, trials, hq, hc, fun t ht layer hl => hc.not_substitutes ht hl,
    fun t ht value ds outcome hl => hc.document ht hl, fun s leg hleg => ?_,
    fun s first rest hfirst hchain => Leg.sum_substitutions hfirst hchain⟩
  exact ⟨hleg.substitutions_le, hleg.refusesSecond,
    fun query hquery => hc.descent (hleg.start hquery)⟩

end Host

/-! ## Two custom values at one place

A custom value gives the late component, and the promise that this waits for is fulfilled with a
second custom value. -/

namespace Twofold

def component : Model Bool :=
  .element { renderable := .function "Late" ⟨false, .empty⟩, key := none, props := .empty }

/-- The code `true` gives the late component, the code `false` a string. -/
def user : UserCode Bool Unit where
  render _ _ _ := .call (.status ⟨0⟩) fun (status : PromiseStatus Bool) => .done
    (match status with
    | .pending => .suspended (.promise ⟨0⟩)
    | .settled (.ok value) => .ready value
    | .settled (.error e) => .failed e)
  load _ := .done (.ready .null)
  toModel code := .done (if code.code then component else .string "x")
  await _ _ _ := .done ()
  react _ := .done ()
  metadata _ _ := .done (.ok .null)
  destination _ _ := .done .pass

def settings : RequestSettings Bool where
  modules := .manifest .empty

def items : List (Model Bool) := [.custom "First" ⟨true, .empty⟩]

def resumed : Model Bool := .array [component]

def second : Model Bool := .custom "Second" ⟨false, .empty⟩

/-- The promise is fulfilled before the only pass. -/
def early : Script Bool Unit Unit :=
  .call .newPromise fun _ => .call (.settle ⟨0⟩ (.ok second)) fun _ =>
    .call (.startWork ⟨0⟩) fun _ => .call .runNext fun _ => .done ()

def late : Script Bool Unit Unit :=
  .call .newPromise fun _ => .call (.startWork ⟨0⟩) fun _ => .call .runNext fun _ =>
    .call (.settle ⟨0⟩ (.ok second)) fun _ => .call .runNext fun _ => .done ()

theorem early_makes : early.Makes fun _ => True :=
  ⟨trivial, fun _ _ => ⟨trivial, fun _ _ => ⟨trivial, fun _ _ => ⟨trivial, fun _ _ => trivial⟩⟩⟩⟩

theorem late_makes : late.Makes fun _ => True :=
  ⟨trivial, fun _ _ => ⟨trivial, fun _ _ => ⟨trivial, fun _ _ => ⟨trivial, fun _ _ =>
    ⟨trivial, fun _ _ => trivial⟩⟩⟩⟩⟩

end Twofold

namespace Host

/-- Here the late component comes first, and has the only custom value replaced when it is
resumed. -/
theorem substituted_once_resumed :
    ∃ (h : Host Bool Unit) (q : Request Bool) (trials : List (Trial Bool)),
      h.requests[0]? = some q ∧ h.Unnested ⟨0⟩ ∧
      h.completed ⟨0⟩ =
        [Row.ofModel (RowId.ofNat 0) "[\"$1\"]", Row.ofModel (RowId.ofNat 1) "\"x\""] ∧
      Chronicle Twofold.user ⟨0⟩ (.model Twofold.resumed) h.journal q trials ∧
      ∀ (s : SegmentId) (first : Leg Bool) rest, first.IsOf trials s →
        (first :: rest).IsChain (Leg.ResumedBy trials) →
        ((first :: rest).map Leg.substitutions).sum ≤ 1 + (first :: rest).countP Leg.forgets := by
  obtain ⟨h₁, hnew⟩ : ∃ h₁, newRequest (σ := Unit) Twofold.settings Twofold.resumed (fresh () #[]) =
      some (⟨0⟩, h₁) := ⟨_, rfl⟩
  have hplay : ((newRequest Twofold.settings Twofold.resumed (fresh () #[])).bind fun made =>
      Twofold.late.run (perform Twofold.user 20) made.2).any (fun ended =>
        decide (ended.2.Unnested ⟨0⟩ ∧ ended.2.completed ⟨0⟩ =
          [Row.ofModel (RowId.ofNat 0) "[\"$1\"]", Row.ofModel (RowId.ofNat 1) "\"x\""])) = true := by
    decide +kernel
  rw [hnew, Option.bind_some] at hplay
  obtain ⟨⟨u, h⟩, hrun, hend⟩ := (Option.any_eq_true _ _).mp hplay
  obtain ⟨hunnested, hcompleted⟩ := of_decide_eq_true hend
  have hmade : Step Twofold.user (fun _ => True) (fresh () #[]) h₁ := .create _ _ hnew
  have hmodel : h₁.requests[0]? = some (.ofModel Twofold.settings Twofold.resumed) := by
    cases hnew
    rfl
  obtain ⟨q, trials, hq, hc, -, -, -, hsum⟩ := substituted_once (r := ⟨0⟩) Twofold.user
    ⟨(), #[], .refl⟩ rfl hmade hmodel (.single (.script 20 Twofold.late_makes hrun)) hunnested
  exact ⟨h, q, trials, hq, hunnested, hcompleted, hc, hsum⟩

/-- The second custom value is refused if the late component need not wait, and replaced if it has
to. -/
theorem second_custom_accepted :
    (∃ (h : Host Bool Unit) (q : Request Bool),
      Reachable Twofold.user (fun _ => True) h ∧ h.requests[0]? = some q ∧ h.Unnested ⟨0⟩ ∧
      h.completed ⟨0⟩ = [Row.ofError (RowId.ofNat 0)
        (Refusal.secondCustom (.items Twofold.items) "0" "Second")]) ∧
    ∃ (h : Host Bool Unit) (q : Request Bool),
      Reachable Twofold.user (fun _ => True) h ∧ h.requests[0]? = some q ∧ h.Unnested ⟨0⟩ ∧
      h.completed ⟨0⟩ =
        [Row.ofModel (RowId.ofNat 0) "[\"$1\"]", Row.ofModel (RowId.ofNat 1) "\"x\""] := by
  constructor
  · obtain ⟨h, q, hr, hq, hp⟩ := exists_reachable (r := ⟨0⟩) (n := 20) Twofold.user
      Twofold.early_makes
      (fun h q => decide (h.Unnested ⟨0⟩ ∧ h.completed ⟨0⟩ = [Row.ofError (RowId.ofNat 0)
        (Refusal.secondCustom (.items Twofold.items) "0" "Second")]))
      (by decide +kernel : (play Twofold.user () #[] Twofold.settings (.array Twofold.items)
        Twofold.early 20).any _ = true)
    exact ⟨h, q, hr, hq, of_decide_eq_true hp⟩
  · obtain ⟨h, q, hr, hq, hp⟩ := exists_reachable (r := ⟨0⟩) (n := 20) Twofold.user
      Twofold.late_makes
      (fun h q => decide (h.Unnested ⟨0⟩ ∧ h.completed ⟨0⟩ =
        [Row.ofModel (RowId.ofNat 0) "[\"$1\"]", Row.ofModel (RowId.ofNat 1) "\"x\""]))
      (by decide +kernel : (play Twofold.user () #[] Twofold.settings (.array Twofold.items)
        Twofold.late 20).any _ = true)
    exact ⟨h, q, hr, hq, of_decide_eq_true hp⟩

end Host
end TreeStream
