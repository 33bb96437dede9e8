import Mathlib.Algebra.GroupWithZero.Nat
import Mathlib.Data.List.Count
import TreeStream.Host.Task

/-!
# What is known about user code

A script sees the host only through the answers to its calls, so it is known as far as the calls it
makes, the answers it can get and the values it ends with are known. A world fixes all three for
the scripts of a session. What holds in a world that allows everything holds of all user code.
-/

namespace TreeStream

variable {κ σ α : Type}

def Callback.ping? (r : RequestId) : Callback κ → Option SegmentId
  | .ping r' s => if r' = r then some s else none
  | .user _ => none

def Callback.IsUser : Callback κ → Prop
  | .ping _ _ => False
  | .user _ => True

/-- A call that names no ping. Only the thenables of the user ever hand pings to a script. -/
def HostCall.Plain : HostCall κ → Prop
  | .subscribe _ onFulfilled onRejected => onFulfilled.IsUser ∧ onRejected.IsUser
  | .invoke callback => callback.IsUser
  | _ => True

/-- The callbacks that are done with once the call is. Those of a subscription are the same. -/
def HostCall.debt : HostCall κ → List (Callback κ)
  | .subscribe _ onFulfilled _ => [onFulfilled]
  | .invoke callback => [callback]
  | _ => []

/-- Every call of the script is one of `may`, and whatever answers of `can` it gets, it ends with a
value of `ends`. -/
def Script.Always (may : HostCall κ → Prop) (can : (c : HostCall κ) → c.Reply → Prop)
    (ends : α → Prop) : Script κ σ α → Prop
  | done a => ends a
  | get next => ∀ s, (next s).Always may can ends
  | put _ next => next.Always may can ends
  | call c next => may c ∧ ∀ a, can c a → (next a).Always may can ends

def Script.Makes (may : HostCall κ → Prop) (script : Script κ σ α) : Prop :=
  script.Always may (fun _ _ => True) fun _ => True

theorem Script.Always.imp {may may' : HostCall κ → Prop}
    {can can' : (c : HostCall κ) → c.Reply → Prop} {ends ends' : α → Prop}
    (hmay : ∀ c, may c → may' c) (hcan : ∀ c a, can' c a → can c a)
    (hends : ∀ a, ends a → ends' a) {script : Script κ σ α} (h : script.Always may can ends) :
    script.Always may' can' ends' := by
  induction script with
  | done a => exact hends a h
  | get next ih => exact fun s => ih s (h s)
  | put s next ih => exact ih h
  | call c next ih => exact ⟨hmay c h.1, fun a ha => ih a (h.2 a (hcan c a ha))⟩

theorem Script.always_of_forall {may : HostCall κ → Prop}
    {can : (c : HostCall κ) → c.Reply → Prop} {ends : α → Prop} (hmay : ∀ c, may c)
    (hends : ∀ a, ends a) (script : Script κ σ α) : script.Always may can ends := by
  induction script with
  | done a => exact hends a
  | get next ih => exact fun s => ih s
  | put s next ih => exact ih
  | call c next ih => exact ⟨hmay c, fun a _ => ih a⟩

/-- What is known about a session: the calls that its scripts make, the outcomes that promises settle
with, the values that the code of models ends with, and what its requests are made from. -/
structure World (κ : Type) where
  may : HostCall κ → Prop := fun _ => True
  fate : PromiseId → Outcome κ → Prop := fun _ _ => True
  render : Code κ → Props κ → Option (Model κ) → Resolution κ (Model κ) → Prop :=
    fun _ _ _ _ => True
  load : Code κ → Resolution κ (Model κ) → Prop := fun _ _ => True
  toModel : Code κ → Model κ → Prop := fun _ _ => True
  metadata : ModuleSource κ → ModuleReference → Except RenderError Json → Prop :=
    fun _ _ _ => True
  origin : RequestId → ModuleSource κ → Model κ → Prop := fun _ _ _ => True

namespace World

variable (W : World κ)

/-- The world in which user code does what it likes. -/
def any : World κ := {}

/-- Some script names pings. -/
def Free : Prop := ∃ c, W.may c ∧ ¬ c.Plain

/-- What work can wait for: thenables of the user only where scripts name pings. -/
def Waits (thenable : Thenable κ) : Prop := W.Free ∨ ∃ p, thenable = .promise p

/-- Without promises that can be created, every promise is settled from the start. -/
def Opens : Prop := W.may .newPromise

/-- The answers that a call can get. Hooks answer alike all through a work pass. -/
def Possible (inPass : Prop) : (c : HostCall κ) → c.Reply → Prop
  | .status p, (answer : PromiseStatus κ) =>
    match answer with
    | .pending => W.Opens
    | .settled outcome => W.fate p outcome
  | .hook hook, (answer : Except RenderError Unit) => inPass → answer = hook.permit true
  | _, _ => True

/-- Calls that keep the account of pings and promises: two callbacks that are registered together
are the user's or one ping, and a promise is made only where promises can be. -/
def Handles : HostCall κ → Prop
  | .subscribe _ onFulfilled onRejected =>
    W.Free ∨ (onFulfilled.IsUser ∧ onRejected.IsUser) ∨ onFulfilled = onRejected
  | .newPromise => W.Opens
  | _ => True

theorem handles_of_may {c : HostCall κ} (h : W.may c) : W.Handles c := by
  by_cases hp : c.Plain
  · cases c with
    | subscribe p f f' => exact .inr (.inl hp)
    | newPromise => exact h
    | _ => trivial
  · cases c with
    | subscribe p f f' => exact .inl ⟨_, h, hp⟩
    | newPromise => exact h
    | _ => trivial

def Tells (inPass : Prop) (ends : α → Prop) (script : Script κ σ α) : Prop :=
  script.Always W.may (W.Possible inPass) ends

theorem possible_imp {inPass inPass' : Prop} (h : inPass → inPass') {c : HostCall κ} {a : c.Reply}
    (ha : W.Possible inPass' c a) : W.Possible inPass c a := by
  cases c with
  | hook hook => exact fun hin => ha (h hin)
  | _ => exact ha

theorem tells_of_makes (inPass : Prop) {script : Script κ σ α} (h : script.Makes W.may) :
    W.Tells inPass (fun _ => True) script :=
  h.imp (fun _ hc => hc) (fun _ _ _ => trivial) fun _ ha => ha

end World

/-- User code that keeps to what a world tells. Where no script names pings, none is given any. -/
structure UserCode.KeepsTo (user : UserCode κ σ) (W : World κ) : Prop where
  render : ∀ code props ref, W.Tells True (W.render code props ref) (user.render code props ref)
  load : ∀ code, W.Tells True (W.load code) (user.load code)
  toModel : ∀ code, W.Tells True (W.toModel code) (user.toModel code)
  source : ∀ code m, W.Tells True (W.metadata (.user code) m) (user.metadata code m)
  manifest : ∀ manifest m,
    W.metadata (.manifest manifest) m ((manifest.lookup m).map ModuleMetadata.toJson)
  react : ∀ code, W.Tells False (fun _ => True) (user.react code)
  destination : ∀ code call, W.Tells False (fun _ => True) (user.destination code call)
  await : W.Free → ∀ code f g, W.Tells False (fun _ => True) (user.await code f g)
  rendered : ∀ code props ref thenable,
    W.render code props ref (.suspended thenable) → W.Waits thenable
  loaded : ∀ code thenable, W.load code (.suspended thenable) → W.Waits thenable

theorem World.free_any : (World.any : World κ).Free :=
  ⟨.invoke (.ping ⟨0⟩ ⟨0⟩), trivial, id⟩

/-- All user code keeps to the world that allows everything. -/
theorem UserCode.keepsTo_any (user : UserCode κ σ) : user.KeepsTo World.any := by
  have htells : ∀ {α : Type} inPass (script : Script κ σ α) (ends : α → Prop),
      (∀ a, ends a) → World.any.Tells inPass ends script := by
    intro α inPass script ends hends
    exact Script.always_of_forall (fun _ => trivial) hends script
  exact
    { render := fun _ _ _ => htells _ _ _ fun _ => trivial
      load := fun _ => htells _ _ _ fun _ => trivial
      toModel := fun _ => htells _ _ _ fun _ => trivial
      source := fun _ _ => htells _ _ _ fun _ => trivial
      manifest := fun _ _ => trivial
      react := fun _ => htells _ _ _ fun _ => trivial
      destination := fun _ _ => htells _ _ _ fun _ => trivial
      await := fun _ _ _ _ => htells _ _ _ fun _ => trivial
      rendered := fun _ _ _ _ _ => .inl World.free_any
      loaded := fun _ _ _ => .inl World.free_any }

end TreeStream
