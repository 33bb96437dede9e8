import TreeStream.Serializer.Basic

/-!
# The serializer with its effects left open

The serializer runs in any monad. In a walk every effect is asked for and answered from outside, so
a walk is the serializer with nothing assumed about who answers: each run of it in a lawful monad is
the walk with its effects performed there (`position_perform`), and what all walks do, all runs do.
-/

namespace TreeStream

variable {κ α β : Type}

/-- What the serializer asks of user code and of its context. -/
inductive Effect (κ : Type) where
  | render (code : Closure κ (Model κ)) (props : Props κ) (ref : Option (Model κ))
  | load (code : Closure κ (Model κ))
  | toModel (code : Closure κ (Model κ))
  | suspend (query : Query κ) (thenable : Thenable κ)
  | emitError (error : RenderError)
  | metadata (module : ModuleReference)
  | warn (text : String)

abbrev Effect.Reply : Effect κ → Type
  | render _ _ _ => Resolution κ (Model κ)
  | load _ => Resolution κ (Model κ)
  | toModel _ => Model κ
  | suspend _ _ => RowId
  | emitError _ => RowId
  | metadata _ => Except RenderError Json
  | warn _ => Unit

/-- An effect that has happened. -/
structure Deed (κ : Type) where
  effect : Effect κ
  reply : effect.Reply

/-- A computation that asks for one effect after the other, and may get stuck for lack of depth. -/
inductive Walk (κ α : Type) : Type where
  | done (value : α)
  | stuck
  | ask (effect : Effect κ) (next : effect.Reply → Walk κ α)

namespace Walk

def bind : Walk κ α → (α → Walk κ β) → Walk κ β
  | done a, f => f a
  | stuck, _ => stuck
  | ask e next, f => ask e fun reply => (next reply).bind f

instance : Monad (Walk κ) where
  pure := done
  bind := bind

instance : GivesUp (Walk κ) := ⟨stuck⟩

def code : CodeEffects κ (Walk κ) where
  render code props ref := ask (.render code props ref) done
  load code := ask (.load code) done
  toModel code := ask (.toModel code) done

def context (strict : Bool) : SerializerContext κ (Walk κ) where
  suspend query thenable := ask (.suspend query thenable) done
  emitError e := ask (.emitError e) done
  metadata m := ask (.metadata m) done
  strict := strict
  warn text := ask (.warn text) done

/-! ## Runs -/

/-- The walk ends with a value after these effects, given the replies they got. -/
inductive Runs : Walk κ α → List (Deed κ) → α → Prop
  | done (a : α) : Runs (done a) [] a
  | ask {e next a ds} (reply : e.Reply) (h : Runs (next reply) ds a) :
    Runs (ask e next) (⟨e, reply⟩ :: ds) a

theorem runs_pure {a b : α} {ds : List (Deed κ)} :
    (pure a : Walk κ α).Runs ds b ↔ b = a ∧ ds = [] := by
  constructor
  · rintro ⟨⟩
    exact ⟨rfl, rfl⟩
  · rintro ⟨rfl, rfl⟩
    exact .done _

theorem runs_bind {w : Walk κ α} {k : α → Walk κ β} {b : β} {ds : List (Deed κ)} :
    (w >>= k).Runs ds b ↔ ∃ a ds₁ ds₂, w.Runs ds₁ a ∧ (k a).Runs ds₂ b ∧ ds = ds₁ ++ ds₂ := by
  induction w generalizing ds with
  | done a =>
    constructor
    · exact fun h => ⟨a, [], ds, .done a, h, rfl⟩
    · rintro ⟨_, _, ds₂, ⟨⟩, hk, rfl⟩
      exact hk
  | stuck =>
    constructor
    · rintro ⟨⟩
    · rintro ⟨_, _, _, ⟨⟩, _⟩
  | ask e next ih =>
    constructor
    · rintro (_ | ⟨reply, h⟩)
      obtain ⟨a, ds₁, ds₂, hw, hk, rfl⟩ := (ih reply).mp h
      exact ⟨a, _, ds₂, .ask reply hw, hk, rfl⟩
    · rintro ⟨a, _, ds₂, _ | ⟨reply, hw⟩, hk, rfl⟩
      exact .ask reply ((ih reply).mpr ⟨a, _, ds₂, hw, hk, rfl⟩)

theorem runs_ask {e : Effect κ} {reply : e.Reply} {ds : List (Deed κ)} :
    (ask e done).Runs ds reply ↔ ds = [⟨e, reply⟩] := by
  constructor
  · rintro (_ | ⟨_, ⟨⟩⟩)
    rfl
  · rintro rfl
    exact .ask reply (.done reply)

end Walk

/-! ## Walks that may be refused -/

/-- A walk that may be refused. -/
abbrev RefusableWalk (κ α : Type) := ExceptT RenderError (Walk κ) α

namespace RefusableWalk

variable {w : RefusableWalk κ α} {k : α → RefusableWalk κ β} {ds : List (Deed κ)}

/-- A refusal ends the walk; otherwise it goes on after what has happened. -/
theorem runs_bind {o : Except RenderError β} :
    (w >>= k).run.Runs ds o ↔
      (∃ e, o = .error e ∧ w.run.Runs ds (.error e)) ∨
      ∃ a ds₁ ds₂, w.run.Runs ds₁ (.ok a) ∧ (k a).run.Runs ds₂ o ∧ ds = ds₁ ++ ds₂ := by
  refine Walk.runs_bind.trans ⟨?_, ?_⟩
  · rintro ⟨_ | a, ds₁, ds₂, hw, hk, rfl⟩
    case error e =>
      obtain ⟨rfl, rfl⟩ := Walk.runs_pure.mp hk
      rw [List.append_nil]
      exact .inl ⟨e, rfl, hw⟩
    case ok => exact .inr ⟨a, ds₁, ds₂, hw, hk, rfl⟩
  · rintro (⟨e, rfl, hw⟩ | ⟨a, ds₁, ds₂, hw, hk, rfl⟩)
    · exact ⟨.error e, ds, [], hw, Walk.runs_pure.mpr ⟨rfl, rfl⟩, (List.append_nil ds).symm⟩
    · exact ⟨.ok a, ds₁, ds₂, hw, hk, rfl⟩

theorem runs_pure {a : α} {o : Except RenderError α} :
    (pure a : RefusableWalk κ α).run.Runs ds o ↔ o = .ok a ∧ ds = [] :=
  Walk.runs_pure

theorem runs_throw {e : RenderError} {o : Except RenderError α} :
    (throw e : RefusableWalk κ α).run.Runs ds o ↔ o = .error e ∧ ds = [] :=
  Walk.runs_pure

theorem runs_lift {v : Walk κ α} {o : Except RenderError α} :
    (ExceptT.lift v : RefusableWalk κ α).run.Runs ds o ↔ ∃ a, o = .ok a ∧ v.Runs ds a := by
  refine Walk.runs_bind.trans ⟨?_, ?_⟩
  · rintro ⟨a, ds₁, ds₂, hv, hk, rfl⟩
    obtain ⟨rfl, rfl⟩ := Walk.runs_pure.mp hk
    rw [List.append_nil]
    exact ⟨a, rfl, hv⟩
  · rintro ⟨a, rfl, hv⟩
    exact ⟨a, ds, [], hv, Walk.runs_pure.mpr ⟨rfl, rfl⟩, (List.append_nil ds).symm⟩

theorem runs_lift_bind {v : Walk κ α} {o : Except RenderError β} :
    ((ExceptT.lift v : RefusableWalk κ α) >>= k).run.Runs ds o ↔
      ∃ a ds₁ ds₂, v.Runs ds₁ a ∧ (k a).run.Runs ds₂ o ∧ ds = ds₁ ++ ds₂ := by
  refine runs_bind.trans ⟨?_, ?_⟩
  · rintro (⟨e, -, hw⟩ | ⟨a, ds₁, ds₂, hw, hk, rfl⟩)
    · obtain ⟨a, ha, -⟩ := runs_lift.mp hw
      cases ha
    · obtain ⟨a', ha, hv⟩ := runs_lift.mp hw
      cases ha
      exact ⟨a, ds₁, ds₂, hv, hk, rfl⟩
  · rintro ⟨a, ds₁, ds₂, hv, hk, rfl⟩
    exact .inr ⟨a, ds₁, ds₂, runs_lift.mpr ⟨a, rfl, hv⟩, hk, rfl⟩

theorem runs_ask_bind {e : Effect κ} {k : e.Reply → RefusableWalk κ β} {o : Except RenderError β} :
    ((ExceptT.lift (.ask e .done) : RefusableWalk κ e.Reply) >>= k).run.Runs ds o ↔
      ∃ reply ds', (k reply).run.Runs ds' o ∧ ds = ⟨e, reply⟩ :: ds' := by
  refine runs_lift_bind.trans ⟨?_, ?_⟩
  · rintro ⟨reply, ds₁, ds₂, hv, hk, rfl⟩
    rw [Walk.runs_ask.mp hv]
    exact ⟨reply, ds₂, hk, rfl⟩
  · rintro ⟨reply, ds', hk, rfl⟩
    exact ⟨reply, _, ds', Walk.runs_ask.mpr rfl, hk, rfl⟩

theorem runs_map {f : α → β} {o : Except RenderError β} :
    (f <$> w).run.Runs ds o ↔ ∃ o', w.run.Runs ds o' ∧ o = o'.map f := by
  refine Walk.runs_bind.trans ⟨?_, ?_⟩
  · rintro ⟨_ | a, ds₁, ds₂, hw, hk, rfl⟩
    all_goals
      obtain ⟨rfl, rfl⟩ := Walk.runs_pure.mp hk
      rw [List.append_nil]
      exact ⟨_, hw, rfl⟩
  · rintro ⟨_ | a, hw, rfl⟩
    all_goals exact ⟨_, ds, [], hw, Walk.runs_pure.mpr ⟨rfl, rfl⟩, (List.append_nil ds).symm⟩

theorem runs_bind_pure {f : α → β} {o : Except RenderError β} :
    (w >>= fun a => pure (f a)).run.Runs ds o ↔ ∃ o', w.run.Runs ds o' ∧ o = o'.map f := by
  constructor
  · intro h
    rcases runs_bind.mp h with ⟨e, rfl, hw⟩ | ⟨a, ds₁, ds₂, hw, hend, rfl⟩
    · exact ⟨.error e, hw, rfl⟩
    · obtain ⟨rfl, rfl⟩ := runs_pure.mp hend
      rw [List.append_nil]
      exact ⟨.ok a, hw, rfl⟩
  · rintro ⟨_ | a, hw, rfl⟩
    case error e => exact runs_bind.mpr (.inl ⟨e, rfl, hw⟩)
    case ok =>
      exact runs_bind.mpr (.inr ⟨a, ds, [], hw, runs_pure.mpr ⟨rfl, rfl⟩, (List.append_nil ds).symm⟩)

end RefusableWalk

/-! ## Performing a walk -/

section

variable {m : Type → Type} [Monad m] (code : CodeEffects κ m) (ctx : SerializerContext κ m)
  (fails : (α : Type) → m α)

def Effect.perform : (e : Effect κ) → m e.Reply
  | render c props ref => code.render c props ref
  | load c => code.load c
  | toModel c => code.toModel c
  | suspend query thenable => ctx.suspend query thenable
  | emitError e => ctx.emitError e
  | metadata module => ctx.metadata module
  | warn text => ctx.warn text

/-- The effects of a walk performed as it asks for them. -/
def Walk.perform : Walk κ α → m α
  | done a => pure a
  | stuck => fails α
  | ask e next => do (next (← e.perform code ctx)).perform

def Absorbs (fails : (α : Type) → m α) : Prop :=
  ∀ ⦃α β : Type⦄ (k : α → m β), fails α >>= k = fails β

variable {code ctx fails}

def Serializer.Performs (code : CodeEffects κ m) (ctx : SerializerContext κ m)
    (fails : (α : Type) → m α) (x : ExceptT RenderError m α) (w : RefusableWalk κ α) : Prop :=
  x.run = w.run.perform code ctx fails

namespace Serializer.Performs

theorem pure (a : α) : Performs code ctx fails (Pure.pure a) (Pure.pure a) := rfl

theorem throw (e : RenderError) :
    Performs code ctx fails (MonadExcept.throw e : ExceptT RenderError m α)
      (MonadExcept.throw e) := rfl

end Serializer.Performs

variable [LawfulMonad m]

theorem Walk.perform_bind (hm : Absorbs fails) (w : Walk κ α) (k : α → Walk κ β) :
    (w >>= k).perform code ctx fails =
      w.perform code ctx fails >>= fun a => (k a).perform code ctx fails := by
  induction w with
  | done a => exact (pure_bind a fun a => (k a).perform code ctx fails).symm
  | stuck => exact (hm _).symm
  | ask e next ih =>
    change (e.perform code ctx >>= fun reply => (next reply >>= k).perform code ctx fails) = _
    simp only [ih]
    exact (bind_assoc _ _ _).symm

theorem Walk.perform_ask (e : Effect κ) :
    (ask e done).perform code ctx fails = e.perform code ctx := by
  change (e.perform code ctx >>= fun reply => pure reply) = _
  exact bind_pure (e.perform code ctx)

namespace Serializer

namespace Performs

variable {x : ExceptT RenderError m α} {w : RefusableWalk κ α}

theorem bind (hm : Absorbs fails) {k : α → ExceptT RenderError m β} {v : α → RefusableWalk κ β}
    (hx : Performs code ctx fails x w) (hk : ∀ a, Performs code ctx fails (k a) (v a)) :
    Performs code ctx fails (x >>= k) (w >>= v) := by
  change (x.run >>= ExceptT.bindCont k) = Walk.perform code ctx fails (w.run >>= ExceptT.bindCont v)
  rw [Walk.perform_bind hm, hx]
  congr 1
  funext o
  cases o with
  | ok a => exact hk a
  | error e => rfl

theorem map (hm : Absorbs fails) (f : α → β) (hx : Performs code ctx fails x w) :
    Performs code ctx fails (f <$> x) (f <$> w) := by
  change (ExceptT.map f x).run = Walk.perform code ctx fails (ExceptT.map f w).run
  unfold ExceptT.map
  change (x.run >>= _) = Walk.perform code ctx fails (w.run >>= _)
  rw [Walk.perform_bind hm, hx]
  congr 1
  funext o
  cases o <;> rfl

theorem lift (hm : Absorbs fails) {y : m α} {v : Walk κ α} (h : y = v.perform code ctx fails) :
    Performs code ctx fails (ExceptT.lift y) (ExceptT.lift v) := by
  change (Except.ok <$> y) = Walk.perform code ctx fails (Except.ok <$> v)
  rw [h, map_eq_pure_bind]
  exact (Walk.perform_bind hm v fun a => Pure.pure (Except.ok a)).symm

theorem ask (hm : Absorbs fails) (e : Effect κ) :
    Performs code ctx fails (ExceptT.lift (e.perform code ctx))
      (ExceptT.lift (Walk.ask e Walk.done)) :=
  .lift hm (Walk.perform_ask e).symm

end Performs

theorem resolveRenderable_perform (key : Option String) (props : Props κ)
    (renderable : Renderable κ (Model κ)) :
    resolveRenderable code key props renderable =
      (resolveRenderable Walk.code key props renderable).perform code ctx fails := by
  induction renderable generalizing key with
  | function name render => exact (Walk.perform_ask (.render render props none)).symm
  | forwardRef name render => exact (Walk.perform_ask (.render render props none)).symm
  | memo inner ih => exact ih none
  | _ => rfl

theorem overItems_perform (hm : Absorbs fails)
    {f : String → α → ExceptT RenderError m (Option Json)}
    {f' : String → α → RefusableWalk κ (Option Json)}
    (hf : ∀ k a, Performs code ctx fails (f k a) (f' k a)) (i : Nat) (xs : List α) :
    Performs code ctx fails (overItems f i xs) (overItems f' i xs) := by
  induction xs generalizing i with
  | nil => exact .pure _
  | cons x xs ih => exact .bind hm (hf _ x) fun j => .bind hm (ih (i + 1)) fun js => .pure _

theorem overFields_perform (hm : Absorbs fails)
    {f : String → α → ExceptT RenderError m (Option Json)}
    {f' : String → α → RefusableWalk κ (Option Json)}
    (hf : ∀ k a, Performs code ctx fails (f k a) (f' k a)) (xs : List (String × α)) :
    Performs code ctx fails (overFields f xs) (overFields f' xs) := by
  induction xs with
  | nil => exact .pure _
  | cons x xs ih => exact .bind hm (hf _ _) fun j => .bind hm ih fun js => .pure _

theorem moduleSlot_perform (hm : Absorbs fails)
    {walk : Model κ → ExceptT RenderError m (Option Json)}
    {walk' : Model κ → RefusableWalk κ (Option Json)}
    (hwalk : ∀ value, Performs code ctx fails (walk value) (walk' value))
    (found : Except RenderError Json) :
    Performs code ctx fails (moduleSlot ctx walk found)
      (moduleSlot (Walk.context ctx.strict) walk' found) := by
  cases found with
  | ok json => exact .map hm _ (hwalk _)
  | error e => exact .map hm _ (.ask hm (.emitError e))

theorem dataSlot_perform (hm : Absorbs fails)
    {walk : Model κ → ExceptT RenderError m (Option Json)}
    {walk' : Model κ → RefusableWalk κ (Option Json)}
    (hwalk : ∀ value, Performs code ctx fails (walk value) (walk' value))
    (load : Closure κ (Model κ)) (outcome : Resolution κ (Model κ)) :
    Performs code ctx fails (dataSlot ctx walk load outcome)
      (dataSlot (Walk.context ctx.strict) walk' load outcome) := by
  cases outcome with
  | ready value => exact .map hm _ (hwalk value)
  | suspended t => exact .map hm _ (.ask hm (.suspend (.load load) t))
  | failed e => exact .map hm _ (.ask hm (.emitError e))

variable [GivesUp m] (hm : Absorbs fun α => (giveUp : m α))

include hm

/-- Every run of the serializer is its walk, performed. -/
theorem position_perform (n : Nat) (parent : Container κ) (key : String) (substituted : Bool)
    (value : Model κ) :
    Performs code ctx (fun _ => giveUp) (position code ctx n parent key substituted value)
      (position Walk.code (Walk.context ctx.strict) n parent key substituted value) := by
  induction n generalizing parent key substituted value with
  | zero => rfl
  | succ n ih =>
    cases value with
    | custom typeName toModel =>
      cases substituted with
      | true => exact .throw _
      | false =>
        have hnext : Performs code ctx (fun _ => giveUp)
            (ExceptT.lift (code.toModel toModel) >>= position code ctx n parent key true)
            (ExceptT.lift (Walk.code.toModel toModel) >>=
              position Walk.code (Walk.context ctx.strict) n parent key true) :=
          .bind hm (.ask hm (.toModel toModel)) fun next => ih _ _ _ next
        cases hstrict : ctx.strict with
        | true =>
          simp only [position, Bool.false_eq_true, if_false, hstrict, Walk.context, if_true]
          exact .bind hm (.ask hm (.warn (Refusal.customWarning parent key)))
            fun _ => hstrict ▸ hnext
        | false =>
          simp only [position, Bool.false_eq_true, if_false, hstrict, Walk.context]
          exact hstrict ▸ hnext
    | element e =>
      refine .bind hm (.lift hm (resolveRenderable_perform e.key e.props e.renderable))
        fun outcome => ?_
      cases outcome with
      | ready next => exact ih _ _ _ next
      | failed e => exact .throw e
      | suspended t =>
        exact .bind hm (.ask hm (.suspend (.model (.element e)) t)) fun id => .pure _
    | array items =>
      exact .bind hm (overItems_perform hm (fun k x => ih _ _ _ x) 0 items)
        fun js => .pure _
    | record fields =>
      exact .bind hm (overFields_perform hm (fun k x => ih _ _ _ x) fields.entries)
        fun js => .pure _
    | serverBlock block =>
      refine .bind hm (.ask hm (.metadata block.module)) fun found => ?_
      refine .bind hm (moduleSlot_perform hm (fun value => ih _ _ _ _) found)
        fun module => ?_
      refine .bind hm (.ask hm (.load block.load)) fun outcome => ?_
      exact .bind hm (dataSlot_perform hm (fun value => ih _ _ _ _) block.load outcome)
        fun data => .pure _
    | _ => rfl

theorem serialize_perform (n : Nat) (value : Model κ) :
    Performs code ctx (fun _ => giveUp) (serialize code ctx n value)
      (serialize Walk.code (Walk.context ctx.strict) n value) :=
  .bind hm (position_perform hm n _ _ _ value) fun _ => .pure _

end Serializer
end
end TreeStream
