import TreeStream.Proofs.Sessions

/-!
# Pure code and its meaning

Pure code makes no promise and gives its value, whatever the host answers, unless it has found a
promise pending, and then it may have to wait. A meaning tells these values, and what promises are
fulfilled with. User code that does what a meaning tells keeps to a world in which pure code gives
its value or waits, and in a session that makes no promise nothing is pending, so nothing waits.
-/

namespace TreeStream

variable {κ σ α : Type}

/-- The value is given, or has to be waited for where anything waits. -/
def Resolution.Gives (outcome : Resolution κ α) (waits : Prop) (value : α) : Prop :=
  outcome = .ready value ∨ waits ∧ ∃ t, outcome = .suspended t

def HostCall.MakesNoPromise : HostCall κ → Prop
  | .newPromise => False
  | _ => True

def HostCall.FindsPending : (c : HostCall κ) → c.Reply → Prop
  | .status _, (answer : PromiseStatus κ) => answer = .pending
  | _, _ => False

/-- What pure code gives, where module metadata is found, and what promises are fulfilled with. All
else is left open. -/
structure Meaning (κ : Type) where
  fate : PromiseId → Option (Model κ)
  render : Code κ → Props κ → Option (Model κ)
  load : Code κ → Option (Model κ)
  metadata : ModuleSource κ → ModuleReference → Option Json

namespace Meaning

variable (M : Meaning κ)

def Fulfils (p : PromiseId) (outcome : Outcome κ) : Prop :=
  ∀ value, M.fate p = some value → outcome = .ok value

/-- All that the meaning tells is what promises are fulfilled with. -/
def anyCode : World κ where
  fate := M.Fulfils

/-- Pure code gives its value, or waits if anything does, and one request is made from these
modules and this model. Where nothing waits no promise is made. -/
def world (waits : Prop) (r : RequestId) (modules : ModuleSource κ) (model : Model κ) :
    World κ where
  may c := waits ∨ c.MakesNoPromise
  fate := M.Fulfils
  render code props ref outcome :=
    ref = none → ∀ value, M.render code props = some value → outcome.Gives waits value
  load code outcome := ∀ value, M.load code = some value → outcome.Gives waits value
  metadata modules m found := ∀ json, M.metadata modules m = some json → found = .ok json
  origin r' modules' model' := r' = r → modules' = modules ∧ model' = model

end Meaning

/-- Whatever the host answers, the script makes no promise and gives the value, unless it has found
a promise pending or `waits` already. -/
def Script.Gives (M : Meaning κ) (value : α) : Prop → Script κ σ (Resolution κ α) → Prop
  | waits, done outcome => outcome.Gives waits value
  | waits, get next => ∀ s, (next s).Gives M value waits
  | waits, put _ next => next.Gives M value waits
  | waits, call c next => c.MakesNoPromise ∧
      ∀ a, M.anyCode.Possible True c a → (next a).Gives M value (waits ∨ c.FindsPending a)

/-- User code that does what the meaning tells. -/
structure UserCode.Means (user : UserCode κ σ) (M : Meaning κ) : Prop where
  render : ∀ code props value, M.render code props = some value →
    (user.render code props none).Gives M value False
  load : ∀ code value, M.load code = some value → (user.load code).Gives M value False
  source : ∀ code m json, M.metadata (.user code) m = some json →
    (user.metadata code m).Always HostCall.MakesNoPromise (M.anyCode.Possible True)
      fun found => found = .ok json
  manifest : ∀ (manifest : Manifest) m json, M.metadata (.manifest manifest) m = some json →
    (manifest.lookup m).map ModuleMetadata.toJson = .ok json

structure UserCode.MakesNoPromise (user : UserCode κ σ) : Prop where
  render : ∀ code props ref, (user.render code props ref).Makes HostCall.MakesNoPromise
  load : ∀ code, (user.load code).Makes HostCall.MakesNoPromise
  toModel : ∀ code, (user.toModel code).Makes HostCall.MakesNoPromise
  await : ∀ code f g, (user.await code f g).Makes HostCall.MakesNoPromise
  react : ∀ code, (user.react code).Makes HostCall.MakesNoPromise
  metadata : ∀ code m, (user.metadata code m).Makes HostCall.MakesNoPromise
  destination : ∀ code call, (user.destination code call).Makes HostCall.MakesNoPromise

variable {M : Meaning κ} {waits : Prop} {r : RequestId} {modules : ModuleSource κ}
  {model : Model κ}

/-- Only where something waits a promise can be found pending. -/
theorem Meaning.possible_world {c : HostCall κ} {a : c.Reply}
    (h : (M.world waits r modules model).Possible True c a) :
    M.anyCode.Possible True c a ∧ (c.FindsPending a → waits) := by
  cases c with
  | status p =>
    cases a with
    | pending =>
      have hopens : waits ∨ False := h
      exact ⟨trivial, fun _ => hopens.resolve_right id⟩
    | settled outcome =>
      refine ⟨h, fun hp => ?_⟩
      cases hp
  | _ => exact ⟨h, False.elim⟩

/-- What a script gives, it gives in every world of the meaning. -/
theorem Script.Gives.tells {value : α} {waits₀ : Prop} {script : Script κ σ (Resolution κ α)}
    (h : script.Gives M value waits₀) (hw : waits₀ → waits) :
    (M.world waits r modules model).Tells True (fun outcome => outcome.Gives waits value)
      script := by
  induction script generalizing waits₀ with
  | done outcome => exact h.imp id fun hs => ⟨hw hs.1, hs.2⟩
  | get next ih => exact fun s => ih s (h s) hw
  | put s next ih => exact ih h hw
  | call c next ih =>
    refine ⟨.inr h.1, fun a ha => ?_⟩
    obtain ⟨hpossible, hpending⟩ := Meaning.possible_world ha
    exact ih a (h.2 a hpossible) fun hor => hor.elim hw hpending

theorem World.free_of_may_invoke {W : World κ} (h : ∀ callback, W.may (.invoke callback)) :
    W.Free :=
  ⟨.invoke (.ping ⟨0⟩ ⟨0⟩), h _, id⟩

/-- Where something may wait nothing else needs to be known of user code. -/
theorem UserCode.Means.keepsTo {user : UserCode κ σ} (h : user.Means M)
    (hw : waits ∨ user.MakesNoPromise) : user.KeepsTo (M.world waits r modules model) := by
  have hfree : (M.world waits r modules model).Free :=
    World.free_of_may_invoke fun _ => .inr trivial
  have hopen : ∀ {α : Type} {inPass : Prop} {ends : α → Prop} {script : Script κ σ α},
      (∀ a, ends a) → (user.MakesNoPromise → script.Makes HostCall.MakesNoPromise) →
      (M.world waits r modules model).Tells inPass ends script := by
    intro α inPass ends script hends hmakes
    rcases hw with hw | hno
    · exact Script.always_of_forall (fun _ => .inl hw) hends script
    · exact (hmakes hno).imp (fun _ hc => .inr hc) (fun _ _ _ => trivial) fun a _ => hends a
  constructor
  case render =>
    intro code props ref
    by_cases hknown : ref = none ∧ ∃ value, M.render code props = some value
    · obtain ⟨rfl, value, hvalue⟩ := hknown
      have htells : (M.world waits r modules model).Tells True
          (fun outcome => outcome.Gives waits value) (user.render code props none) :=
        (h.render code props value hvalue).tells False.elim
      apply htells.imp (fun _ hc => hc) (fun _ _ ha => ha)
      intro outcome hgives _ value' hvalue'
      cases hvalue.symm.trans hvalue'
      exact hgives
    · apply hopen _ fun hno => hno.render code props ref
      intro outcome hnone value hvalue
      exact absurd ⟨hnone, value, hvalue⟩ hknown
  case load =>
    intro code
    cases hknown : M.load code with
    | some value =>
      have htells : (M.world waits r modules model).Tells True
          (fun outcome => outcome.Gives waits value) (user.load code) :=
        (h.load code value hknown).tells False.elim
      apply htells.imp (fun _ hc => hc) (fun _ _ ha => ha)
      intro outcome hgives value' hvalue'
      cases hknown.symm.trans hvalue'
      exact hgives
    | none =>
      apply hopen _ fun hno => hno.load code
      intro outcome value hvalue
      cases hknown.symm.trans hvalue
  case source =>
    intro code m
    cases hknown : M.metadata (.user code) m with
    | some json =>
      apply (h.source code m json hknown).imp (fun _ hc => .inr hc)
        (fun _ _ ha => (Meaning.possible_world ha).1)
      intro found hfound json' hjson'
      cases hknown.symm.trans hjson'
      exact hfound
    | none =>
      apply hopen _ fun hno => hno.metadata code m
      intro found json hjson
      cases hknown.symm.trans hjson
  case manifest => exact h.manifest
  case toModel => exact fun code => hopen (fun _ => trivial) fun hno => hno.toModel code
  case react => exact fun code => hopen (fun _ => trivial) fun hno => hno.react code
  case destination =>
    exact fun code call => hopen (fun _ => trivial) fun hno => hno.destination code call
  case await => exact fun _ code f g => hopen (fun _ => trivial) fun hno => hno.await code f g
  case rendered => exact fun _ _ _ _ _ => .inl hfree
  case loaded => exact fun _ _ _ => .inl hfree

end TreeStream
