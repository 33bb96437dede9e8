import TreeStream.Proofs.Triple
import TreeStream.Proofs.Writing

/-!
# The serializer in a host

Run in a host, the serializer ends as it can end as a relation. `I is` stands for the states of the
host in which the rows `is` have been issued so far; an action refines a relation if it ends with a
value that the relation has together with the rows it adds.
-/

namespace TreeStream

variable {κ σ α β : Type}

/-- If `φ` holds, the action ends as the relation does. -/
def Refines (W : World κ) (φ : Prop) (I : List (Issue κ) → Host κ σ → Prop) (m : HostM κ σ α)
    (w : Writing κ α) : Prop :=
  ∀ is, Triple W (fun h => φ ∧ I is h) m fun a h => ∃ js, w a js ∧ I (is ++ js) h

namespace Refines

variable {W : World κ} {φ : Prop} {I : List (Issue κ) → Host κ σ → Prop}

theorem given {m : HostM κ σ α} {w : Writing κ α} (h : Refines W True I m w) :
    Refines W φ I m w :=
  fun is => (h is).pre fun _ hP => ⟨trivial, hP.2⟩

/-- What is only true under `φ` needs a reason why no promise changes otherwise. -/
theorem assume {m : HostM κ σ α} {w : Writing κ α} (hg : Grows m)
    (h : φ → Refines W True I m w) : Refines W φ I m w :=
  fun is => Triple.assuming hg (fun _ hP => hP.1) fun hφ => (h hφ).given is

theorem pure {a : α} : Refines W φ I (Pure.pure a) (Pure.pure a) :=
  fun is => Triple.pure fun h hI => ⟨[], ⟨rfl, rfl⟩, by rw [List.append_nil]; exact hI.2⟩

theorem failure {w : Writing κ α} : Refines W φ I (Alternative.failure) w :=
  fun _ => Triple.failure

theorem bind {m : HostM κ σ α} {w : Writing κ α} {k : α → HostM κ σ β} {v : α → Writing κ β}
    (hm : Refines W φ I m w) (hk : ∀ a, Refines W (∃ js, w a js) I (k a) (v a)) :
    Refines W φ I (m >>= k) (w >>= v) := by
  intro is
  refine (hm is).bind fun a => ?_
  intro h b h' hrun
  refine ⟨(hk a is).grows hrun, ?_⟩
  rintro hw ⟨js, hjs, hI⟩
  obtain ⟨js', hjs', hI'⟩ := (hk a (is ++ js) hrun).2 hw ⟨⟨js, hjs⟩, hI⟩
  exact ⟨js ++ js', ⟨a, js, js', hjs, hjs', rfl⟩, by rwa [← List.append_assoc]⟩

theorem silent {m : HostM κ σ α} {ends : α → Prop}
    (h : ∀ is, Triple W (I is) m fun a h => I is h ∧ ends a) :
    Refines W φ I m (Writing.silent ends) :=
  fun is => (h is).conseq (fun _ hP => hP.2) fun a _ hQ =>
    ⟨[], ⟨hQ.2, rfl⟩, by rw [List.append_nil]; exact hQ.1⟩

/-! ## Actions that may be refused -/

theorem ok {a : α} :
    Refines W φ I (Pure.pure a : ExceptT RenderError (HostM κ σ) α).run
      (Pure.pure a : Refusable κ α).run :=
  pure (a := Except.ok a)

theorem throw {e : RenderError} :
    Refines W φ I (MonadExcept.throw e : ExceptT RenderError (HostM κ σ) α).run
      (MonadExcept.throw e : Refusable κ α).run :=
  pure (a := Except.error e)

theorem lift {m : HostM κ σ α} {w : Writing κ α} (h : Refines W φ I m w) :
    Refines W φ I (ExceptT.lift m : ExceptT RenderError (HostM κ σ) α).run
      (ExceptT.lift w : Refusable κ α).run :=
  h.bind fun a => (pure (a := Except.ok a)).given

theorem andThen {m : ExceptT RenderError (HostM κ σ) α} {w : Refusable κ α}
    {k : α → ExceptT RenderError (HostM κ σ) β} {v : α → Refusable κ β}
    (hm : Refines W φ I m.run w.run)
    (hk : ∀ a, Refines W (∃ js, w.run (.ok a) js) I (k a).run (v a).run) :
    Refines W φ I (m >>= k).run (w >>= v).run := by
  refine hm.bind fun a => ?_
  cases a with
  | ok a => exact hk a
  | error e => exact (pure (a := Except.error e)).given

theorem map {f : α → β} {m : ExceptT RenderError (HostM κ σ) α} {w : Refusable κ α}
    (hm : Refines W φ I m.run w.run) : Refines W φ I (f <$> m).run (f <$> w).run := by
  change Refines W φ I (ExceptT.map f m) (ExceptT.map f w)
  unfold ExceptT.map
  refine hm.bind fun a => ?_
  cases a with
  | ok a => exact (pure (a := Except.ok (f a))).given
  | error e => exact (pure (a := Except.error e)).given

end Refines

/-! ## The serializer -/

namespace Serializer

variable {W : World κ} {I : List (Issue κ) → Host κ σ → Prop}

/-- User code run in a host ends as the world tells. -/
structure CodeRefines (W : World κ) (I : List (Issue κ) → Host κ σ → Prop)
    (code : CodeEffects κ (HostM κ σ)) : Prop where
  render : ∀ c props ref, Refines W True I (code.render c props ref) (W.effects.render c props ref)
  load : ∀ c, Refines W True I (code.load c) (W.effects.load c)
  toModel : ∀ c, Refines W True I (code.toModel c) (W.effects.toModel c)
  rendered : ∀ c props ref thenable, W.render c props ref (.suspended thenable) → W.Waits thenable
  loaded : ∀ c thenable, W.load c (.suspended thenable) → W.Waits thenable

/-- The context of a host issues the rows that it should. -/
structure ContextRefines (W : World κ) (I : List (Issue κ) → Host κ σ → Prop)
    (modules : ModuleSource κ) (strict : Bool) (ctx : SerializerContext κ (HostM κ σ)) : Prop where
  suspend : ∀ query thenable, W.Waits thenable →
    Refines W True I (ctx.suspend query thenable)
      ((W.context modules strict).suspend query thenable)
  suspend_grows : ∀ query thenable, Grows (ctx.suspend query thenable)
  emitError : ∀ e, Refines W True I (ctx.emitError e) ((W.context modules strict).emitError e)
  metadata : ∀ m, Refines W True I (ctx.metadata m) ((W.context modules strict).metadata m)
  warn : ∀ text, Refines W True I (ctx.warn text) ((W.context modules strict).warn text)
  strict : ctx.strict = strict

theorem waits_of_resolveRenderable
    (hr : ∀ c props ref t, W.render c props ref (.suspended t) → W.Waits t) {key : Option String}
    {props : Props κ} {renderable : Renderable κ (Model κ)} {thenable : Thenable κ}
    {is : List (Issue κ)}
    (h : resolveRenderable W.effects key props renderable (.suspended thenable) is) :
    W.Waits thenable := by
  induction renderable generalizing key with
  | function name render => exact hr _ _ _ _ h.1
  | forwardRef name render => exact hr _ _ _ _ h.1
  | memo inner ih => exact ih h
  | host tag => cases h.1
  | serverBlock block => cases h.1
  | wrapper kind => cases h.1
  | lazy => cases h.1
  | provider name => cases h.1
  | context name => cases h.1

theorem resolveRenderable_refines {code : CodeEffects κ (HostM κ σ)} (hcode : CodeRefines W I code)
    {φ : Prop} (key : Option String) (props : Props κ) (renderable : Renderable κ (Model κ)) :
    Refines W φ I (resolveRenderable code key props renderable)
      (resolveRenderable W.effects key props renderable) := by
  induction renderable generalizing key with
  | function name render => exact (hcode.render render props none).given
  | forwardRef name render => exact (hcode.render render props none).given
  | memo inner ih => exact ih none
  | host tag => exact .pure
  | serverBlock block => exact .pure
  | wrapper kind => exact .pure
  | lazy => exact .pure
  | provider name => exact .pure
  | context name => exact .pure

theorem overItems_refines {f : String → α → ExceptT RenderError (HostM κ σ) (Option Json)}
    {f' : String → α → Refusable κ (Option Json)}
    (hf : ∀ k a, Refines W True I (f k a).run (f' k a).run) (i : Nat) (xs : List α) :
    Refines W True I (overItems f i xs).run (overItems f' i xs).run := by
  induction xs generalizing i with
  | nil => exact .ok
  | cons x xs ih =>
    exact (hf _ x).andThen fun j => ((ih (i + 1)).andThen fun js => .ok).given

theorem overFields_refines {f : String → α → ExceptT RenderError (HostM κ σ) (Option Json)}
    {f' : String → α → Refusable κ (Option Json)}
    (hf : ∀ k a, Refines W True I (f k a).run (f' k a).run) (xs : List (String × α)) :
    Refines W True I (overFields f xs).run (overFields f' xs).run := by
  induction xs with
  | nil => exact .ok
  | cons x xs ih => exact (hf _ _).andThen fun j => (ih.andThen fun js => .ok).given

variable {modules : ModuleSource κ} {strict : Bool} {code : CodeEffects κ (HostM κ σ)}
  {ctx : SerializerContext κ (HostM κ σ)}

theorem suspend_refines (hctx : ContextRefines W I modules strict ctx) {φ : Prop}
    {query : Query κ} {thenable : Thenable κ} (hφ : φ → W.Waits thenable) :
    Refines W φ I (ctx.suspend query thenable)
      ((W.context modules strict).suspend query thenable) :=
  .assume (hctx.suspend_grows _ _) fun h => hctx.suspend query thenable (hφ h)

theorem moduleSlot_refines (hctx : ContextRefines W I modules strict ctx)
    {walk : Model κ → ExceptT RenderError (HostM κ σ) (Option Json)}
    {walk' : Model κ → Refusable κ (Option Json)}
    (hwalk : ∀ value, Refines W True I (walk value).run (walk' value).run)
    (found : Except RenderError Json) :
    Refines W True I (moduleSlot ctx walk found).run
      (moduleSlot (W.context modules strict) walk' found).run := by
  cases found with
  | ok json => exact (hwalk _).map
  | error err => exact (Refines.lift (hctx.emitError err)).map

theorem dataSlot_refines (hctx : ContextRefines W I modules strict ctx)
    {walk : Model κ → ExceptT RenderError (HostM κ σ) (Option Json)}
    {walk' : Model κ → Refusable κ (Option Json)}
    (hwalk : ∀ value, Refines W True I (walk value).run (walk' value).run)
    (load : Code κ) {outcome : Resolution κ (Model κ)} {φ : Prop}
    (hφ : ∀ thenable, outcome = .suspended thenable → φ → W.Waits thenable) :
    Refines W φ I (dataSlot ctx walk load outcome).run
      (dataSlot (W.context modules strict) walk' load outcome).run := by
  cases outcome with
  | ready value => exact (hwalk value).given.map
  | failed err => exact (Refines.lift (hctx.emitError err)).given.map
  | suspended t => exact (Refines.lift (suspend_refines hctx (hφ t rfl))).map

/-- Every run of the serializer in a host is one that the relation has. -/
theorem position_refines (hcode : CodeRefines W I code)
    (hctx : ContextRefines W I modules strict ctx) (n : Nat) (parent : Container κ) (key : String)
    (substituted : Bool) (value : Model κ) :
    Refines W True I (position code ctx n parent key substituted value).run
      (position W.effects (W.context modules strict) n parent key substituted value).run := by
  induction n generalizing parent key substituted value with
  | zero => exact .failure
  | succ n ih =>
    cases value with
    | custom typeName toModel =>
      have hnext : ∀ φ : Prop, Refines W φ I
          (ExceptT.lift (code.toModel toModel) >>= position code ctx n parent key true :
            ExceptT RenderError (HostM κ σ) _).run
          (ExceptT.lift (W.effects.toModel toModel) >>=
            position W.effects (W.context modules strict) n parent key true : Refusable κ _).run :=
        fun φ => ((Refines.lift (hcode.toModel toModel)).andThen fun next =>
          (ih _ _ _ next).given).given
      cases substituted with
      | true => exact .throw
      | false =>
        simp only [position, Bool.false_eq_true, if_false, hctx.strict]
        cases strict with
        | true => exact (Refines.lift (hctx.warn _)).andThen fun _ => hnext _
        | false => exact hnext True
    | element e =>
      refine (Refines.lift (resolveRenderable_refines hcode e.key e.props e.renderable)).andThen
        fun outcome => ?_
      cases outcome with
      | ready next => exact (ih _ _ _ next).given
      | failed err => exact .throw
      | suspended t =>
        refine (Refines.lift (suspend_refines hctx ?_)).andThen fun id => .ok
        rintro ⟨js, hjs⟩
        exact waits_of_resolveRenderable hcode.rendered (Refusable.lift_ok.mp hjs)
    | array items =>
      exact (overItems_refines (fun k x => ih _ _ _ x) 0 items).andThen fun js => .ok
    | record fields =>
      exact (overFields_refines (fun k x => ih _ _ _ x) fields.entries).andThen fun js => .ok
    | serverBlock block =>
      refine (Refines.lift (hctx.metadata block.module)).andThen fun found => ?_
      refine (moduleSlot_refines hctx (fun _ => ih _ _ _ _) found).given.andThen fun module => ?_
      refine (Refines.lift (hcode.load block.load)).given.andThen fun outcome => ?_
      refine (dataSlot_refines hctx (fun _ => ih _ _ _ _) block.load ?_).andThen fun data => .ok
      rintro thenable rfl ⟨js, hjs⟩
      exact hcode.loaded _ _ (Refusable.lift_ok.mp hjs).1
    | undefined => exact .pure
    | null => exact .pure
    | bool b => exact .pure
    | number d => exact .pure
    | string s => exact .pure
    | bigInt i => exact .pure
    | symbol d => exact .pure
    | function f b => exact .pure
    | instanceOf c fs => exact .pure
    | marker k => exact .pure

end Serializer
end TreeStream
