import TreeStream.Proofs.TwinRuns

/-!
# Serializing models that are alike

If two models are alike up to wrappers, the serializer performs the same effects for both, in the
same order, and gives the same JSON. A wrapper costs one step of the bound and nothing else.
-/

namespace TreeStream

variable {κ σ σ' : Type}

namespace Serializer

variable {code : CodeEffects κ (HostM κ σ)}

theorem resolveRenderable_passes {x : Renderable κ (Model κ)} (hx : x.passes = true)
    (key : Option String) (props : Props κ) : resolveRenderable code key props x =
      pure (.ready ((props.get? childrenKey).getD .undefined)) := by
  induction x generalizing key with
  | wrapper => rfl
  | memo inner ih => exact ih hx none
  | _ => cases hx

theorem resolveRenderable_host {x : Renderable κ (Model κ)} (hx : x.isHost = true)
    (key : Option String) (props : Props κ) :
    resolveRenderable code key props x = pure (.ready (x.tuple props key)) := by
  induction x generalizing key with
  | host => rfl
  | serverBlock => rfl
  | memo inner ih => exact ih hx none
  | _ => cases hx

/-- What a leaf is does not depend on the container, unless it is refused. -/
theorem leaf_alike {wraps : Bool} {parent parent' : Container κ}
    (hparent : wraps = false → parent' = parent) (key : String) (v : Model κ) :
    Result.Alike κ wraps Eq (leaf parent key v) (leaf parent' key v) := by
  cases wraps with
  | false =>
    rw [hparent rfl]
    exact .refl _
  | true =>
    cases v with
    | function name => exact .refusal rfl (.function parent key name) (.function parent' key name)
    | symbol d => exact .refusal rfl (.symbol parent key d) (.symbol parent' key d)
    | bigInt i => exact .refusal rfl (.bigInt parent key i) (.bigInt parent' key i)
    | instanceOf c => exact .refusal rfl (.instanceOf parent key c) (.instanceOf parent' key c)
    | marker kind => cases kind <;> exact .refl _
    | _ => exact .refl _

end Serializer

abbrev Host.walk (user : UserCode κ σ) (call : (c : HostCall κ) → HostM κ σ c.Reply) (r : RequestId)
    (strict : Bool) : Nat → Container κ → String → Bool → Model κ →
      ExceptT RenderError (HostM κ σ) (Option Json) :=
  Serializer.position (Host.codeEffects user call r) (Host.context user call r strict)

section
variable (user : UserCode κ σ) (call : (c : HostCall κ) → HostM κ σ c.Reply) (r : RequestId)
  (strict : Bool) (n : Nat) (parent : Container κ) (key : String)

theorem Host.walk_passes (substituted : Bool) {e : Element κ (Model κ)}
    (he : e.renderable.passes = true) :
    walk user call r strict (n + 1) parent key substituted (.element e) =
      walk user call r strict n parent key substituted e.content := by
  rw [walk, Serializer.position, Serializer.resolveElement, Serializer.resolveRenderable_passes he]
  rfl

/-- A custom value is replaced once, with a warning if checks are strict. -/
theorem Host.walk_custom (typeName : String) (toModel : Code κ) :
    walk user call r strict (n + 1) parent key false (.custom typeName toModel) = (do
      ExceptT.lift (if strict then warn r (Refusal.customWarning parent key) else pure ())
      let next ← ExceptT.lift ((codeEffects user call r).toModel toModel)
      walk user call r strict n parent key true next) := by
  cases strict <;> rfl

end

/-- The action with errors leads from twins to twins, and to the same error or to results that
belong together. -/
def Yields (T : Twinning κ σ σ') (calls : RequestId → Nat) (tried : Tried) {α : Type}
    (R : α → α → Prop) (x : ExceptT RenderError (HostM κ σ) α)
    (x' : Nat → ExceptT RenderError (HostM κ σ') α) : Prop :=
  Tracks T calls tried (Result.Alike κ T.wraps R) x.run fun n => (x' n).run

namespace Yields

variable {T : Twinning κ σ σ'} {calls : RequestId → Nat} {tried : Tried} {α β : Type}
  {R : α → α → Prop} {S : β → β → Prop} {x : ExceptT RenderError (HostM κ σ) α}
  {x' : Nat → ExceptT RenderError (HostM κ σ') α}
  {f : α → ExceptT RenderError (HostM κ σ) β} {f' : Nat → α → ExceptT RenderError (HostM κ σ') β}

theorem pure {a a' : α} (h : R a a') : Yields T calls tried R (pure a) fun _ => pure a' :=
  Mirrors.pure (.ok h)

theorem throw (e : RenderError) :
    Yields T calls tried R (throw e : ExceptT RenderError (HostM κ σ) α) fun _ => throw e :=
  Mirrors.pure (.error e)

theorem lift {m : HostM κ σ α} {m' : Nat → HostM κ σ' α} (h : Tracks T calls tried R m m') :
    Yields T calls tried R (ExceptT.lift m) fun n => ExceptT.lift (m' n) :=
  h.map fun _ _ ha => .ok ha

theorem bind (hR : ∀ a, R a a) (hx : Yields T calls tried R x x')
    (hf : ∀ a a', R a a' → Yields T calls tried S (f a) fun n => f' n a') :
    Yields T calls tried S (x >>= f) fun n => x' n >>= f' n := by
  refine Mirrors.bind (fun a => ?_) hx fun a a' ha => ?_
  · cases a with
    | error e => exact ⟨_, .error e⟩
    | ok a => exact ⟨_, .ok (hR a)⟩
  · cases ha with
    | ok h => exact hf _ _ h
    | error e => exact Mirrors.pure (.error e)
    | refusal hw h h' => exact Mirrors.pure (.refusal hw h h')

theorem bind_eq (hx : Yields T calls tried Eq x x')
    (hf : ∀ a, Yields T calls tried S (f a) fun n => f' n a) :
    Yields T calls tried S (x >>= f) fun n => x' n >>= f' n :=
  hx.bind (fun _ => rfl) fun a _ ha => ha ▸ hf a

theorem map_eq (g : α → β) (hx : Yields T calls tried Eq x x') :
    Yields T calls tried Eq (g <$> x) fun n => g <$> x' n := by
  simpa only [map_eq_pure_bind] using hx.bind_eq fun a => pure (rfl : g a = g a)

open Serializer

theorem overItems {g : String → Model κ → ExceptT RenderError (HostM κ σ) (Option Json)}
    {g' : Nat → String → Model κ → ExceptT RenderError (HostM κ σ') (Option Json)}
    {xs xs' : List (Model κ)} (h : List.Forall₂ (Model.Alike T.wraps) xs xs')
    (hg : ∀ key v v', Model.Alike T.wraps v v' →
      Yields T calls tried Eq (g key v) fun n => g' n key v')
    (i : Nat) : Yields T calls tried Eq (overItems g i xs) fun n => overItems (g' n) i xs' := by
  induction h generalizing i with
  | nil => exact pure rfl
  | cons hv _ ih =>
    exact bind_eq (hg _ _ _ hv) fun j => bind_eq (ih (i + 1)) fun js => pure rfl

theorem overFields {g : String → Model κ → ExceptT RenderError (HostM κ σ) (Option Json)}
    {g' : Nat → String → Model κ → ExceptT RenderError (HostM κ σ') (Option Json)}
    {fs fs' : List (String × Model κ)} (h : Record.Alike T.wraps fs fs')
    (hg : ∀ key v v', Model.Alike T.wraps v v' →
      Yields T calls tried Eq (g key v) fun n => g' n key v') :
    Yields T calls tried Eq (overFields g fs) fun n => overFields (g' n) fs' := by
  induction h with
  | nil => exact pure rfl
  | @cons p p' fs fs' hp _ ih =>
    obtain ⟨key, v⟩ := p
    obtain ⟨key', v'⟩ := p'
    obtain ⟨rfl, hv⟩ := hp
    exact bind_eq (hg key v v' hv) fun j => bind_eq ih fun js => pure rfl

variable {user : UserCode κ σ} {user' : UserCode κ σ'} {call : (c : HostCall κ) → HostM κ σ c.Reply}
  {call' : Nat → (c : HostCall κ) → HostM κ σ' c.Reply} {r : RequestId}

theorem resolveHost {x : Renderable κ (Model κ)} (hx : x.isHost = true) {props props' : Props κ}
    (hkeys : props.keys = props'.keys)
    (h : ∀ p ∈ props.entries.zip props'.entries, Model.Alike T.wraps p.1.2 p.2.2)
    (key : Option String) : Tracks T calls tried (Resolution.Alike T.wraps)
      (Serializer.resolveElement (Host.codeEffects user call r)
        { renderable := x, key := key, props := props })
      fun n => Serializer.resolveElement (Host.codeEffects user' (call' n) r)
        { renderable := x, key := key, props := props' } := by
  simp only [Serializer.resolveElement, resolveRenderable_host hx]
  exact Mirrors.pure (.ready (.tuple hkeys h key))

theorem moduleSlot {walk : Model κ → ExceptT RenderError (HostM κ σ) (Option Json)}
    {walk' : Nat → Model κ → ExceptT RenderError (HostM κ σ') (Option Json)}
    (hwalk : ∀ v, Yields T calls tried Eq (walk v) fun n => walk' n v) (strict strict' : Bool)
    (found : Except RenderError Json) : Yields T calls tried Eq
      (Serializer.moduleSlot (Host.context user call r strict) walk found)
      fun n => Serializer.moduleSlot (Host.context user' (call' n) r strict') (walk' n) found := by
  cases found with
  | ok json => exact map_eq _ (hwalk _)
  | error e => exact map_eq _ (lift (Mirrors.emitError e))

section
variable (U : TwinUsers T user user' call call') (hl : Legal T calls tried)
include U hl

theorem render (code : Code κ) (props : Props κ) (ref : Option (Model κ)) :
    Tracks T calls tried (Resolution.Alike T.wraps)
      ((Host.codeEffects user call r).render code props ref)
      fun n => (Host.codeEffects user' (call' n) r).render code props ref :=
  (Mirrors.recordRun .render).bind_eq fun _ => U.render hl code props ref

theorem load (code : Code κ) : Tracks T calls tried (Resolution.Alike T.wraps)
    ((Host.codeEffects user call r).load code)
    fun n => (Host.codeEffects user' (call' n) r).load code :=
  (Mirrors.recordRun .load).bind_eq fun _ => U.load hl code

theorem toModel (code : Code κ) : Tracks T calls tried (Model.Alike T.wraps)
    ((Host.codeEffects user call r).toModel code)
    fun n => (Host.codeEffects user' (call' n) r).toModel code :=
  (Mirrors.recordRun .toModel).bind_eq fun _ => U.toModel hl code

theorem resolveElement (e : Element κ (Model κ)) : Tracks T calls tried (Resolution.Alike T.wraps)
    (resolveElement (Host.codeEffects user call r) e)
    fun n => resolveElement (Host.codeEffects user' (call' n) r) e := by
  obtain ⟨x, key, props⟩ := e
  unfold Serializer.resolveElement
  induction x generalizing key with
  | function _ code => exact render U hl code props none
  | forwardRef _ code => exact render U hl code props none
  | memo inner ih => exact ih none
  | _ => exact Mirrors.pure (.refl _)

theorem suspend {query query' : Query κ} (hquery : Query.Alike T.wraps query query')
    (t : Thenable κ) (strict strict' : Bool) :
    Yields T calls tried Eq
      (ExceptT.lift ((Host.context user call r strict).suspend query t))
      fun n => ExceptT.lift ((Host.context user' (call' n) r strict').suspend query' t) :=
  lift (Mirrors.suspend U hl hquery t)

theorem dataSlot {walk : Model κ → ExceptT RenderError (HostM κ σ) (Option Json)}
    {walk' : Nat → Model κ → ExceptT RenderError (HostM κ σ') (Option Json)}
    (hwalk : ∀ v v', Model.Alike T.wraps v v' →
      Yields T calls tried Eq (walk v) fun n => walk' n v')
    (strict strict' : Bool) (code : Code κ) {outcome outcome' : Resolution κ (Model κ)}
    (h : Resolution.Alike T.wraps outcome outcome') : Yields T calls tried Eq
      (Serializer.dataSlot (Host.context user call r strict) walk code outcome) fun n =>
        Serializer.dataSlot (Host.context user' (call' n) r strict') (walk' n) code outcome' := by
  cases h with
  | ready hv => exact map_eq _ (hwalk _ _ hv)
  | suspended t => exact map_eq _ (suspend U hl (.load code) t strict strict')
  | failed e => exact map_eq _ (lift (Mirrors.emitError e))

end

end Yields

/-- What is claimed of walks with one bound: two models that are alike are walked alike. -/
def WalksAlike (T : Twinning κ σ σ') (calls : RequestId → Nat) (tried : Tried)
    (user : UserCode κ σ) (user' : UserCode κ σ') (call : (c : HostCall κ) → HostM κ σ c.Reply)
    (call' : Nat → (c : HostCall κ) → HostM κ σ' c.Reply) (r : RequestId) (strict strict' : Bool)
    (n : Nat) : Prop :=
  ∀ (j : Nat) {v v' : Model κ}, Model.Alike T.wraps v v' →
    ∀ {parent parent' : Container κ}, (T.wraps = false → parent' = parent) →
      ∀ (key : String) (substituted : Bool), Yields T calls tried Eq
        (Host.walk user call r strict n parent key substituted v)
        fun m => Host.walk user' (call' m) r strict' (m - j) parent' key substituted v'

namespace WalksAlike

variable {T : Twinning κ σ σ'} {calls : RequestId → Nat} {tried : Tried} {user : UserCode κ σ}
  {user' : UserCode κ σ'} {call : (c : HostCall κ) → HostM κ σ c.Reply}
  {call' : Nat → (c : HostCall κ) → HostM κ σ' c.Reply} {r : RequestId} {strict strict' : Bool}
  {n : Nat} {parent parent' : Container κ} {key : String} {substituted : Bool}

theorem step {x : ExceptT RenderError (HostM κ σ) (Option Json)} {v' : Model κ}
    {j : Nat}
    (h : Yields T calls tried Eq x fun m =>
      Host.walk user' (call' m) r strict' (m - (j + 1) + 1) parent' key substituted v') :
    Yields T calls tried Eq x fun m =>
      Host.walk user' (call' m) r strict' (m - j) parent' key substituted v' :=
  Mirrors.step
    (g := fun m d => (Host.walk user' (call' m) r strict' d parent' key substituted v').run) h

section
variable (hn : WalksAlike T calls tried user user' call call' r strict strict' n)
include hn

theorem array {xs xs' : List (Model κ)}
    (hxs : Model.Alike T.wraps (.array xs) (.array xs'))
    (hitems : List.Forall₂ (Model.Alike T.wraps) xs xs') (j : Nat) : Yields T calls tried Eq
      (Host.walk user call r strict (n + 1) parent key substituted (.array xs)) fun m =>
        Host.walk user' (call' m) r strict' (m - j) parent' key substituted (.array xs') := by
  refine step ?_
  refine Yields.bind_eq (Yields.overItems hitems (fun key v v' hv => ?_) 0) fun js =>
    Yields.pure rfl
  refine hn (j + 1) hv (fun hw => ?_) key false
  rw [hw] at hxs
  cases hxs.eq_of_not
  rfl

theorem record {fs fs' : Record (Model κ)}
    (hfs : Model.Alike T.wraps (.record fs) (.record fs'))
    (hfields : Record.Alike T.wraps fs.entries fs'.entries) (j : Nat) : Yields T calls tried Eq
      (Host.walk user call r strict (n + 1) parent key substituted (.record fs)) fun m =>
        Host.walk user' (call' m) r strict' (m - j) parent' key substituted (.record fs') := by
  refine step ?_
  refine Yields.bind_eq (Yields.overFields hfields fun key v v' hv => ?_) fun js => Yields.pure rfl
  refine hn (j + 1) hv (fun hw => ?_) key false
  rw [hw] at hfs
  cases hfs.eq_of_not
  rfl

variable (U : TwinUsers T user user' call call') (hl : Legal T calls tried)
include U hl

theorem element {e e' : Element κ (Model κ)}
    (he : Model.Alike T.wraps (.element e) (.element e'))
    (houtcome : Tracks T calls tried (Resolution.Alike T.wraps)
      (Serializer.resolveElement (Host.codeEffects user call r) e)
      fun m => Serializer.resolveElement (Host.codeEffects user' (call' m) r) e')
    (hparent : T.wraps = false → parent' = parent) (j : Nat) : Yields T calls tried Eq
      (Host.walk user call r strict (n + 1) parent key substituted (.element e)) fun m =>
        Host.walk user' (call' m) r strict' (m - j) parent' key substituted (.element e') := by
  refine step ?_
  refine Yields.bind .refl (Yields.lift houtcome) fun outcome outcome' h => ?_
  cases h with
  | ready hv => exact hn (j + 1) hv hparent key substituted
  | suspended t =>
    exact Yields.bind_eq (Yields.suspend U hl (.model he) t strict strict') fun id =>
      Yields.pure rfl
  | failed e => exact Yields.throw e

theorem serverBlock (block : ServerBlock κ (Model κ)) (j : Nat) : Yields T calls tried Eq
    (Host.walk user call r strict (n + 1) parent key substituted (.serverBlock block))
    fun m => Host.walk user' (call' m) r strict' (m - j) parent' key substituted
      (.serverBlock block) := by
  refine step ?_
  refine Yields.bind_eq (Yields.lift (Mirrors.metadata U hl block.module)) fun found => ?_
  refine Yields.bind_eq (Yields.moduleSlot (fun v => ?_) strict strict' found) fun module => ?_
  · exact hn (j + 1) (.refl v) (fun _ => rfl) "1" false
  refine Yields.bind .refl (Yields.lift (Yields.load U hl block.load)) fun outcome outcome' h => ?_
  refine Yields.bind_eq (Yields.dataSlot U hl (fun v v' hv => ?_) strict strict' block.load h)
    fun data => Yields.pure rfl
  refine hn (j + 1) hv (fun hw => ?_) "2" false
  rw [hw] at hv
  rw [hv.eq_of_not]

theorem custom (hpos : 0 < calls r) (hstrict : T.lax = false → strict' = strict)
    (hparent : T.wraps = false → parent' = parent) (typeName : String) (code : Code κ) (j : Nat) :
    Yields T calls tried Eq
      (Host.walk user call r strict (n + 1) parent key substituted (.custom typeName code))
      fun m => Host.walk user' (call' m) r strict' (m - j) parent' key substituted
        (.custom typeName code) := by
  refine step ?_
  cases substituted with
  | true =>
    refine Mirrors.pure ?_
    cases hw : T.wraps with
    | false =>
      rw [hparent hw]
      exact .refl _
    | true =>
      exact .refusal rfl (.secondCustom parent key typeName) (.secondCustom parent' key typeName)
  | false =>
    simp only [Host.walk_custom]
    have hwarned : T.warned = true → strict' = strict ∧
        Refusal.customWarning parent' key = Refusal.customWarning parent key := by
      intro hw
      obtain ⟨hwraps, hlax⟩ := T.unwarned hw
      exact ⟨hstrict hlax, by rw [hparent hwraps]⟩
    refine Yields.bind_eq (Yields.lift (Mirrors.warnings hpos hwarned)) fun _ => ?_
    refine Yields.bind .refl (Yields.lift (Yields.toModel U hl code)) fun v v' hv => ?_
    exact hn (j + 1) hv hparent key true

end

/-- Models that are alike are walked alike, with any bound. -/
theorem all (U : TwinUsers T user user' call call') (hl : Legal T calls tried) (hpos : 0 < calls r)
    (hstrict : T.lax = false → strict' = strict) (n : Nat) :
    WalksAlike T calls tried user user' call call' r strict strict' n := by
  induction n with
  | zero => exact fun _ _ _ _ _ _ _ _ _ => Mirrors.failure
  | succ n ih =>
    intro j v v' hv parent parent' hparent key substituted
    induction hv generalizing j with
    | refl v =>
      cases v with
      | element e => exact element ih U hl (.refl _) (Yields.resolveElement U hl e) hparent j
      | array xs => exact array ih (.refl _) (List.forall₂_same.mpr fun v _ => .refl v) j
      | record fs => exact record ih (.refl _) (.refl _) j
      | serverBlock block => exact serverBlock ih U hl block j
      | custom typeName code => exact custom ih U hl hpos hstrict hparent typeName code j
      | _ =>
        refine step ?_
        exact Mirrors.pure (Serializer.leaf_alike hparent key _)
    | inside hw he h =>
      rw [Host.walk_passes _ _ _ _ _ _ _ _ he]
      exact ih j h hparent key substituted
    | @outside e v hw he h ihv =>
      refine step ?_
      simp only [Host.walk_passes _ _ _ _ _ _ _ _ he]
      exact ihv (j + 1)
    | array hlength h => exact array ih (.array hlength h) (Model.Alike.items hlength h) j
    | record hkeys h => exact record ih (.record hkeys h) (Record.Alike.entries hkeys h) j
    | host hx hkeys h =>
      exact element ih U hl (.host hx hkeys h) (Yields.resolveHost hx hkeys h _) hparent j

end WalksAlike
end TreeStream
