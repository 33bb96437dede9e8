import TreeStream.Proofs.DocumentOrder

/-!
# The descent of a segment

A segment starts from a query and is tried until it is completed. A descent is all that its tries
have done: each goes on from where the one before has stopped. A loader or an element that has to
wait is asked again; what it gives takes its place for good; the first value that is no element is
handed to the serializer, which ends the segment either way.

Where the serializer itself meets something that has to wait, it defers just that: the deferral
follows at once, and its query is what was asked last.
-/

namespace TreeStream

variable {κ : Type}

open Serializer

/-- What a try does at the query that a segment has come to. -/
inductive Layer (κ : Type) where
  | loaded (load : Closure κ (Model κ)) (outcome : Resolution κ (Model κ))
  | resolved (element : Element κ (Model κ)) (deeds : List (Deed κ))
    (outcome : Resolution κ (Model κ))
  | handed (value : Model κ) (deeds : List (Deed κ)) (outcome : Except RenderError String)

namespace Layer

def deeds : Layer κ → List (Deed κ)
  | loaded load outcome => [⟨.load load, outcome⟩]
  | resolved _ deeds _ => deeds
  | handed _ deeds _ => deeds

/-- The query that the segment has come to after it, if it is not completed. -/
def next? : Layer κ → Option (Query κ)
  | loaded load (.suspended _) => some (.load load)
  | loaded _ (.ready value) => some (.model value)
  | resolved element _ (.suspended _) => some (.model (.element element))
  | resolved _ _ (.ready value) => some (.model value)
  | _ => none

def isHanded : Layer κ → Bool
  | handed _ _ _ => true
  | _ => false

inductive IsAt : Layer κ → Query κ → Prop
  | loaded (load : Closure κ (Model κ)) (outcome : Resolution κ (Model κ)) :
    IsAt (.loaded load outcome) (.load load)
  | resolved {e : Element κ (Model κ)} {ds : List (Deed κ)} {outcome : Resolution κ (Model κ)}
    (h : Renders e.props e.key e.renderable ds outcome) :
    IsAt (.resolved e ds outcome) (.model (.element e))
  | handed {strict : Bool} {depth : Nat} {value : Model κ} {ds : List (Deed κ)}
    {outcome : Except RenderError String} (hvalue : ∀ e, value ≠ .element e)
    (h : (wholeWalk strict depth value).Runs ds outcome) :
    IsAt (.handed value ds outcome) (.model value)

theorem next?_of_isHanded {layer : Layer κ} (h : layer.isHanded = true) : layer.next? = none := by
  cases layer with
  | handed => rfl
  | loaded => cases h
  | resolved => cases h

end Layer

/-- From a query through the layers to where the segment stands, which is nowhere once it is
completed. -/
inductive Descent : Query κ → List (Layer κ) → Option (Query κ) → Prop
  | stay (query : Query κ) : Descent query [] (some query)
  | stop {query layer} (h : layer.IsAt query) (hnext : layer.next? = none) :
    Descent query [layer] none
  | move {query query' layer layers stand} (h : layer.IsAt query)
    (hnext : layer.next? = some query') (hs : Descent query' layers stand) :
    Descent query (layer :: layers) stand

namespace Descent

variable {query query' : Query κ} {stand : Option (Query κ)} {layer : Layer κ}
  {before after layers : List (Layer κ)}

theorem append (h : Descent query before (some query')) (h' : Descent query' after stand) :
    Descent query (before ++ after) stand := by
  generalize hstand : some query' = stand' at h
  induction h with
  | stay => exact Option.some.inj hstand ▸ h'
  | stop => cases hstand
  | move hat hnext _ ih => exact .move hat hnext (ih hstand)

/-- A descent that goes on has come to some query before. -/
theorem split (h : Descent query (before ++ layer :: after) stand) :
    ∃ query', Descent query before (some query') ∧ Descent query' (layer :: after) stand := by
  induction before generalizing query with
  | nil => exact ⟨query, .stay query, h⟩
  | cons first before ih =>
    generalize hall : first :: before ++ layer :: after = all at h
    cases h with
    | stay => cases hall
    | stop =>
      obtain ⟨-, hnil⟩ := List.cons.inj hall
      exact absurd hnil (by simp)
    | move hat hnext hs =>
      obtain ⟨rfl, rfl⟩ := List.cons.inj hall
      obtain ⟨query', hbefore, hafter⟩ := ih hs
      exact ⟨query', .move hat hnext hbefore, hafter⟩

/-- What a layer has given takes the place of what gave it, in all that follows. -/
theorem after_layer (h : Descent query (before ++ layer :: after) stand)
    (hnext : layer.next? = some query') : Descent query' after stand := by
  obtain ⟨reached, -, hrest⟩ := h.split
  cases hrest with
  | stop _ hnone => cases hnone.symm.trans hnext
  | move _ hsome hs =>
    cases hsome.symm.trans hnext
    exact hs

/-- A segment has its value handed to the serializer at most once. -/
theorem countP_isHanded (h : Descent query layers stand) :
    layers.countP Layer.isHanded ≤ 1 := by
  induction h with
  | stay => exact Nat.zero_le 1
  | stop => exact List.countP_le_length
  | @move query query' layer layers stand _ hnext _ ih =>
    have hnot : layer.isHanded ≠ true := fun hhanded =>
      nomatch (Layer.next?_of_isHanded hhanded).symm.trans hnext
    rwa [List.countP_cons_of_neg hnot]

end Descent

/-! ## Deferrals -/

/-- What a new segment is to start from. -/
def Deed.deferred? : Deed κ → Option (Query κ)
  | ⟨.suspend query _, _⟩ => some query
  | _ => none

/-- After these effects the query has to wait for the thenable: they are those of the loader, or of
the one element, that was asked last. -/
inductive Waits : Query κ → Thenable κ → List (Deed κ) → Prop
  | loader (load : Closure κ (Model κ)) (t : Thenable κ) :
    Waits (.load load) t [⟨.load load, .suspended t⟩]
  | element {e : Element κ (Model κ)} {ds : List (Deed κ)} {t : Thenable κ}
    (h : Renders e.props e.key e.renderable ds (.suspended t)) : Waits (.model (.element e)) t ds

/-- Each deferral follows the effects for which it is made. -/
inductive Deferring : List (Deed κ) → Prop
  | nil : Deferring []
  | other {d : Deed κ} {ds : List (Deed κ)} (hd : d.deferred? = none) (h : Deferring ds) :
    Deferring (d :: ds)
  | deferral {query : Query κ} {t : Thenable κ} {before after : List (Deed κ)} (id : RowId)
    (h : Waits query t before) (hs : Deferring after) :
    Deferring (before ++ ⟨.suspend query t, id⟩ :: after)

variable {strict : Bool} {ds ds' : List (Deed κ)}

theorem Deferring.append (h : Deferring ds) (h' : Deferring ds') : Deferring (ds ++ ds') := by
  induction h with
  | nil => exact h'
  | other hd _ ih => exact .other hd ih
  | deferral id hw _ ih =>
    rw [List.append_assoc]
    exact .deferral id hw ih

theorem Deferring.of_none (h : ∀ d ∈ ds, d.deferred? = none) : Deferring ds := by
  induction ds with
  | nil => exact .nil
  | cons d ds ih =>
    exact .other (h d List.mem_cons_self) (ih fun d' hd => h d' (List.mem_cons_of_mem d hd))

theorem Renders.deferring {props : Props κ} {key : Option String} {x : Renderable κ (Model κ)}
    {outcome : Resolution κ (Model κ)} (h : Renders props key x ds outcome) : Deferring ds := by
  induction h with
  | function => exact .other rfl .nil
  | forwardRef => exact .other rfl .nil
  | memo _ ih => exact ih
  | _ => exact .nil

theorem Reaches.deferring {parent : Container κ} {key : String} {substituted : Bool}
    {value : Model κ} {stop : Stop κ} (h : Reaches strict parent key substituted value ds stop) :
    Deferring ds := by
  induction h with
  | rest => exact .nil
  | layer h _ ih => exact h.deferring.append ih
  | failure h => exact h.deferring
  | deferral h id => exact .deferral id (.element h) .nil
  | custom next _ ih =>
    refine Deferring.append (.of_none fun d hd => ?_) (.other rfl ih)
    split at hd
    · cases List.mem_singleton.mp hd
      rfl
    · cases hd
  | secondCustom => exact .nil

theorem Arrives.deferring {p : Place κ} {stop : Stop κ} (h : Arrives strict p ds stop) :
    Deferring ds := by
  cases h with
  | position h => exact h.deferring
  | found h => exact .other rfl h.deferring
  | loaded h => exact .other rfl h.deferring
  | missing => exact .other rfl (.other rfl .nil)
  | awaited load t id => exact .deferral id (.loader load t) .nil
  | failed => exact .other rfl (.other rfl .nil)

theorem Shows.deferring {p : Place κ} {s : Site κ} (h : Shows strict p s) : Deferring s.deeds := by
  have hvisits : ∀ vs : List (Arrival κ), (∀ v ∈ vs, Arrives strict v.place v.deeds v.stop) →
      Deferring (vs.flatMap Arrival.deeds) := by
    intro vs hvs
    induction vs with
    | nil => exact .nil
    | cons v vs ih =>
      exact (hvs v List.mem_cons_self).deferring.append
        (ih fun w hw => hvs w (List.mem_cons_of_mem v hw))
  exact hvisits s.visits h.arrives

/-- In every run of the serializer a deferral follows the effects for which it is made. -/
theorem deferring_of_runs {n : Nat} {value : Model κ} {o : Except RenderError String}
    (h : (wholeWalk strict n value).Runs ds o) : Deferring ds := by
  obtain ⟨o', hwalk, -⟩ := wholeWalk_runs.mp h
  obtain ⟨s, hs⟩ := walk_document hwalk
  exact hs.deeds ▸ hs.shows.deferring

theorem Layer.IsAt.deferring {layer : Layer κ} {query : Query κ} (h : layer.IsAt query) :
    Deferring layer.deeds := by
  cases h with
  | loaded => exact .other rfl .nil
  | resolved h => exact h.deferring
  | handed _ h => exact deferring_of_runs h

theorem Descent.deferring {query : Query κ} {layers : List (Layer κ)} {stand : Option (Query κ)}
    (h : Descent query layers stand) : Deferring (layers.flatMap Layer.deeds) := by
  induction h with
  | stay => exact .nil
  | stop hat =>
    rw [List.flatMap_singleton]
    exact hat.deferring
  | move hat _ _ ih => exact hat.deferring.append ih

end TreeStream
