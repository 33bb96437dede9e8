import TreeStream.Proofs.TwinPasses

/-!
# Calls of twins

Every call of the host leads from twins to twins if the scripts it starts do. So scripts that are
alike lead from twins to twins, however deep their calls nest.
-/

namespace TreeStream

variable {κ σ σ' : Type}

def HostCall.settles : HostCall κ → Bool
  | .newPromise => true
  | .settle _ _ => true
  | .subscribe _ _ _ => true
  | _ => false

/-- Scripts that make the same calls, with the same state, and end with results that belong
together. -/
inductive Script.Alike {α α' : Type} (R : α → α' → Prop) : Script κ σ α → Script κ σ α' → Prop
  | done {a : α} {a' : α'} (h : R a a') : Alike R (.done a) (.done a')
  | get {next : σ → Script κ σ α} {next' : σ → Script κ σ α'}
    (h : ∀ s, Alike R (next s) (next' s)) : Alike R (.get next) (.get next')
  | put (s : σ) {next : Script κ σ α} {next' : Script κ σ α'} (h : Alike R next next') :
    Alike R (.put s next) (.put s next')
  | call (c : HostCall κ) {next : c.Reply → Script κ σ α} {next' : c.Reply → Script κ σ α'}
    (h : ∀ reply, Alike R (next reply) (next' reply)) : Alike R (.call c next) (.call c next')

theorem Script.Alike.refl {α : Type} {R : α → α → Prop} (hR : ∀ a, R a a) (x : Script κ σ α) :
    x.Alike R x := by
  induction x with
  | done a => exact .done (hR a)
  | get next ih => exact .get ih
  | put s next ih => exact .put s ih
  | call c next ih => exact .call c ih

/-- The same user code, except that the models it gives may be alike only. -/
structure UserCode.Alike (wraps : Bool) (user user' : UserCode κ σ) : Prop where
  render : ∀ code props ref, (user.render code props ref).Alike (Resolution.Alike wraps)
    (user'.render code props ref)
  load : ∀ code, (user.load code).Alike (Resolution.Alike wraps) (user'.load code)
  toModel : ∀ code, (user.toModel code).Alike (Model.Alike wraps) (user'.toModel code)
  await : user'.await = user.await
  react : user'.react = user.react
  metadata : user'.metadata = user.metadata
  destination : user'.destination = user.destination

theorem UserCode.Alike.refl {wraps : Bool} (user : UserCode κ σ) : user.Alike wraps user where
  render _ _ _ := .refl .refl _
  load _ := .refl .refl _
  toModel _ := .refl .refl _
  await := rfl
  react := rfl
  metadata := rfl
  destination := rfl

namespace Mirrors

open Host

variable {T : Twinning κ σ σ'} {calls : RequestId → Nat} {tried : Tried} {r : RequestId}
  {user : UserCode κ σ} {user' : UserCode κ σ'} {call : (c : HostCall κ) → HostM κ σ c.Reply}
  {call' : Nat → (c : HostCall κ) → HostM κ σ' c.Reply}

theorem takeWork : Tracks T calls tried Eq (Host.takeWork : HostM κ σ (Option (Work κ)))
    fun _ => (Host.takeWork : HostM κ σ' (Option (Work κ))) := by
  refine get fun h h' hl => ?_
  rw [hl.queue]
  cases h.queue with
  | nil => exact pure rfl
  | cons work rest =>
    exact bind_eq (change (fun _ => .of_eq rfl rfl) fun h h' ht => { ht with queue := rfl })
      fun _ => pure rfl

theorem memory? : Tracks T calls tried Eq (Host.memory? r : HostM κ σ (Option MemorySink))
    fun _ => (Host.memory? r : HostM κ σ' (Option MemorySink)) := by
  refine get fun h h' hl => pure ?_
  cases hq : h.requests[r.index]? with
  | none => rw [hl.request_missing hq]
  | some q =>
    obtain ⟨_, hq', ⟨segments, strict, -, -⟩⟩ := hl.request hq
    rw [hq']
    rfl

section
variable (U : TwinUsers T user user' call call') (hl : Legal T calls tried)
include U hl

theorem answer_quiet (n : Nat) {c : HostCall κ} (hc : c.settles = false) :
    Tracks T calls tried Eq (Host.answer user n call c)
      fun m => Host.answer user' m (call' m) c := by
  cases c with
  | note line => exact record _
  | hook hook =>
    refine get fun h h' hlooks => ?_
    rw [hlooks.inPass]
    exact pure rfl
  | newPromise => cases hc
  | settle => cases hc
  | settleLater p outcome =>
    refine change (fun _ => .of_eq rfl rfl) fun h h' ht => { ht with tasks := ?_ }
    exact congrArg (· ++ [Task.settle p outcome]) ht.tasks
  | status p => exact promise fun cell => pure rfl
  | subscribe => cases hc
  | invoke callback =>
    cases callback with
    | ping r s => exact ping s
    | user code => exact U.react hl code
  | schedule code =>
    refine change (fun _ => .of_eq rfl rfl) fun h h' ht =>
      { ht with queue := ?_, scheduled := ?_ }
    · exact congrArg (· ++ [Work.user code]) ht.queue
    · exact congrArg (· + 1) ht.scheduled
  | runNext =>
    refine bind_eq takeWork fun work => ?_
    rcases work with _ | _ | _
    · exact pure rfl
    · exact bind_eq (queuedPass U hl n) fun _ => pure rfl
    · exact bind_eq (U.react hl _) fun _ => pure rfl
  | runUntilIdle =>
    refine bind_eq (U.asks hl .runNext) fun ran => ite (fun _ => ?_) fun _ => pure rfl
    exact bind_eq (U.asks hl .runUntilIdle) fun more => pure rfl
  | startWork r =>
    refine onHeld (update (by exact fun _ _ _ => ⟨rfl, rfl, rfl, rfl⟩) (tell ?_))
    exact schedulePass
  | startFlowing r =>
    refine onHeld (request_same fun q segments strict => tell ?_)
    exact update (by exact fun _ _ _ => ⟨rfl, rfl, rfl, rfl⟩) (flush U hl.more n)
  | performWork r => exact onHeld (pass U hl.more (by simp) hl.nested_more n)
  | takeFatal r =>
    refine onHeld (request_same fun q segments strict => ?_)
    exact update (by exact fun _ _ _ => ⟨rfl, rfl, rfl, rfl⟩) (pure rfl)
  | release r => exact modifyRequest fun _ _ _ => ⟨rfl, rfl, rfl, rfl⟩
  | drain r =>
    refine bind_eq memory? fun m => ?_
    cases m with
    | none => exact pure rfl
    | some m => exact update (by exact fun _ _ _ => ⟨rfl, rfl, rfl, rfl⟩) (pure rfl)
  | collected r => exact bind_eq memory? fun m => pure rfl

/-- Calls that change promises, if the states of the users belong together for any promises. -/
theorem answer (hstate : ∀ P P' s s', T.state P s s' → T.state P' s s') (n : Nat)
    (c : HostCall κ) : Tracks T calls tried Eq (Host.answer user n call c)
      fun m => Host.answer user' m (call' m) c := by
  have hmodify : ∀ p f, Tracks T calls tried Eq (modifyPromise p f : HostM κ σ Unit)
      fun _ => (modifyPromise p f : HostM κ σ' Unit) := by
    refine fun p f => change (fun _ => .of_eq rfl rfl) fun h h' ht =>
      { ht with promises := ?_, state := hstate _ _ _ _ ht.state }
    exact congrArg (Array.modify · p.index f) ht.promises
  cases c with
  | newPromise =>
    intro h p h₁ hrun
    cases hrun
    refine ⟨.of_eq rfl rfl, fun h' ht _ _ => ⟨0, _, _, fun _ _ => rfl, ?_, ?_⟩⟩
    · rw [ht.promises]
    · exact { ht with
        promises := congrArg (Array.push · {}) ht.promises
        state := hstate _ _ _ _ ht.state }
  | settle p outcome =>
    refine bind_eq (t := tried) (promise fun cell => ?_) fun reactions => ?_
    · cases cell.status with
      | pending => exact bind_eq (hmodify p _) fun _ => pure rfl
      | settled outcome => exact pure rfl
    · exact forM (fun reaction => U.asks hl (.invoke _)) reactions
  | subscribe p onFulfilled onRejected =>
    refine promise fun cell => ?_
    cases cell.status with
    | pending => exact hmodify p _
    | settled outcome => exact U.asks hl (.invoke _)
  | _ => exact answer_quiet U hl n rfl

end

/-! ## Users with the same state -/

section
variable {T : Twinning κ σ σ} {user user' : UserCode κ σ}
  {call : (c : HostCall κ) → HostM κ σ c.Reply} {call' : Nat → (c : HostCall κ) → HostM κ σ c.Reply}
  (hsame : ∀ P s s', T.state P s s' ↔ s' = s)
include hsame

theorem script {α α' : Type} {R : α → α' → Prop}
    (hcall : ∀ c, Tracks T calls tried Eq (call c) fun n => call' n c) {x : Script κ σ α}
    {x' : Script κ σ α'} (h : x.Alike R x') :
    Tracks T calls tried R (x.run call) fun n => x'.run (call' n) := by
  induction h with
  | done h => exact pure h
  | get _ ih => exact reading id (fun P s s' => (hsame P s s').mp) ih
  | put s _ ih =>
    exact bind_eq (change (fun _ => .of_eq rfl rfl) fun h h' ht =>
      { ht with state := (hsame _ _ _).mpr rfl }) fun _ => ih
  | call c _ ih => exact bind_eq (hcall c) ih

/-- If calls lead from twins to twins, so does user code that is alike. -/
theorem users (halike : user.Alike T.wraps user')
    (hcall : ∀ {calls tried}, Legal T calls tried → ∀ c,
      Tracks T calls tried Eq (call c) fun n => call' n c) :
    TwinUsers T user user' call call' where
  asks hl := hcall hl
  render hl code props ref := script hsame (hcall hl) (halike.render code props ref)
  load hl code := script hsame (hcall hl) (halike.load code)
  toModel hl code := script hsame (hcall hl) (halike.toModel code)
  await hl _ _ _ := halike.await ▸ script hsame (hcall hl) (.refl (fun _ => rfl) _)
  react hl _ := halike.react ▸ script hsame (hcall hl) (.refl (fun _ => rfl) _)
  metadata hl _ _ := halike.metadata ▸ script hsame (hcall hl) (.refl (fun _ => rfl) _)
  destination hl _ _ := halike.destination ▸ script hsame (hcall hl) (.refl (fun _ => rfl) _)

/-- However deep calls nest, they lead from twins to twins. -/
theorem perform (halike : user.Alike T.wraps user') (n : Nat) :
    TwinUsers T user user' (Host.perform user n) fun m => Host.perform user' m := by
  induction n with
  | zero => exact users hsame halike fun _ _ => failure
  | succ n ih =>
    refine users hsame halike fun {calls tried} hl c => ?_
    have hstate : ∀ P P' s s', T.state P s s' → T.state P' s s' := fun P P' s s' h =>
      (hsame P' s s').mpr ((hsame P s s').mp h)
    refine of_eventually (N := 1) (fun m hm => ?_) (less 1 (answer ih hl hstate n c))
    obtain ⟨d, rfl⟩ := Nat.exists_eq_add_of_le' hm
    rfl

end

end Mirrors
end TreeStream
