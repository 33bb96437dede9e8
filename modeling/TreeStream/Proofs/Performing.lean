import TreeStream.Proofs.Passes

/-!
# Calls are courses of turns

The answer to each call is a course of turns, given that the calls of the scripts it starts are.
So by induction on the bound of a run, all calls are.
-/

namespace TreeStream
namespace Host

variable {κ σ α : Type} {W : World κ} {g : Hands κ} {r : RequestId} {x : Hand κ}
  {user : UserCode κ σ} {call : (c : HostCall κ) → HostM κ σ c.Reply}

theorem onHeld_at {action : HostM κ σ α}
    (hact : Triple W (At W (g.set r { g r with fresh := (g r).fresh + 1 })) action fun _ =>
      At W (g.set r { g r with fresh := (g r).fresh + 1 })) :
    Triple W (At W g) (onHeld r action) fun _ => At W g := by
  have hrunning := running_at (x := g r) enter_at hact
  rw [Hands.set_eq_self] at hrunning
  refine Triple.bind (Triple.get (Q := fun h' h => At W g h ∧ h' = h) fun h ha => ⟨ha, rfl⟩)
    fun h' => ?_
  cases hq : h'.requests[r.index]? with
  | none => exact Triple.pure fun h hP => hP.1
  | some q =>
    by_cases hheld : q.held = true
    · simp only [hheld, if_true]
      refine Triple.map (hrunning.pre ?_)
      rintro h ⟨ha, rfl⟩
      exact ⟨ha, q, hq, hheld⟩
    · simp only [hheld]
      exact Triple.pure fun h hP => hP.1

/-! ## Promises -/

theorem promise_at (p : PromiseId) :
    Triple (σ := σ) W (At W g) (promise p) fun cell h =>
      At W g h ∧ h.promises[p.index]? = some cell := by
  refine Triple.of_run fun h cell h' hrun => ?_
  obtain ⟨hp, rfl⟩ := promise_of_run hrun
  exact ⟨rfl, fun ha => ⟨ha, hp⟩⟩

/-- What a promise answers is what the world tells of its outcome. -/
theorem status_at (p : PromiseId) {inPass : Prop} :
    Triple (σ := σ) W (At W g) (do pure (← promise p).status) fun a h =>
      At W g h ∧ W.Possible inPass (.status p) a := by
  intro h a h' hrun
  obtain ⟨⟨cell, h₁⟩, hcell, hrest⟩ := Option.bind_eq_some_iff.mp hrun
  obtain ⟨hp, rfl⟩ := promise_of_run hcell
  cases hrest
  refine ⟨.rfl, fun hw ha => ⟨ha, ?_⟩⟩
  cases hs : cell.status with
  | pending =>
    refine Classical.byContradiction fun ho => ?_
    exact (ha ⟨0⟩).settled ho p.index cell hp hs
  | settled outcome =>
    refine hw p outcome ?_
    simp [outcomeOf, hp, hs, PromiseStatus.outcome?]

/-- The reactions to an outcome make the calls that are owed for them. -/
theorem react_at (hcall : Answers W call) (outcome : Outcome κ) (reactions : List (Reaction κ)) :
    Triple W (At W (g.owe (reactions.map fun reaction => Reaction.pick reaction outcome)))
      (reactions.forM fun reaction => call (.invoke (Reaction.pick reaction outcome))) fun _ =>
        At W g := by
  refine Triple.forM (I := fun rest =>
    At W (g.owe (rest.map fun reaction => Reaction.pick reaction outcome)))
    (fun reaction rest => ?_) reactions
  rw [List.map_cons, Hands.owe_cons]
  exact (hcall.pays (.invoke (Reaction.pick reaction outcome)) trivial _).post fun _ _ hP => hP.1

/-- Of two callbacks that are registered together, the one that is called pays for both. -/
theorem At.owe_pick {p : PromiseId} {f f' : Callback κ} (outcome : Outcome κ)
    (hf : W.Handles (.subscribe p f f')) {h : Host κ σ} (ha : At W (g.owe [f]) h) :
    At W (g.owe [Reaction.pick ⟨f, f'⟩ outcome]) h := by
  cases outcome with
  | ok value => exact ha
  | error e =>
    rcases hf with hfree | ⟨hu, hu'⟩ | rfl
    · exact ha.pay_strays hfree fun r => rfl
    · intro r
      change Course W r (g.owe [f'] r) (h.view r)
      have hr := ha r
      rw [owe_of_foreign (Callback.ping?_of_isUser hu r)] at hr
      rw [owe_of_foreign (Callback.ping?_of_isUser hu' r)]
      exact hr
    · exact ha

theorem subscribe_at (hcall : Answers W call) {p : PromiseId} {f f' : Callback κ}
    (hf : W.Handles (.subscribe p f f')) :
    Triple W (At W (g.owe [f]))
      (do
        match (← promise p).status with
        | .pending =>
          modifyPromise p fun cell => { cell with reactions := cell.reactions ++ [⟨f, f'⟩] }
        | .settled outcome => call (.invoke (Reaction.pick ⟨f, f'⟩ outcome))) fun _ =>
      At W g := by
  refine (promise_at p).bind fun cell => ?_
  cases hs : cell.status with
  | pending => exact (register_at hf).pre fun h hP => ⟨hP.1, cell, hP.2, hs⟩
  | settled outcome =>
    exact (hcall.pays (.invoke (Reaction.pick ⟨f, f'⟩ outcome)) trivial g).conseq
      (fun h hP => hP.1.owe_pick outcome hf) fun _ _ hP => hP.1

theorem react_user_at (huser : user.KeepsTo W) (hcall : Answers W call) (code : Code κ) :
    Triple W (At W g) ((user.react code).run call) fun _ => At W g :=
  (script_at hcall False.elim (huser.react code)).post fun _ _ hP => hP.1

/-! ## Work -/

theorem runNext_at (huser : user.KeepsTo W) (hcall : Answers W call) (n : Nat) :
    Triple W (At W g)
      (do
        match ← takeWork with
        | none => pure false
        | some (.pass r) =>
          queuedPass user call r n
          pure true
        | some (.user code) =>
          (user.react code).run call
          pure true) fun _ => At W g := by
  refine takeWork_at.bind fun work => ?_
  cases work with
  | none => exact Triple.pure fun h ha => ha
  | some work =>
    cases work with
    | user code => exact (react_user_at huser hcall code).bind fun _ => Triple.pure fun _ ha => ha
    | pass r =>
      have hpass := queuedPass_at (g := g) (r := r) (x := g r) huser hcall n
      rw [Hands.set_eq_self] at hpass
      exact hpass.bind fun _ => Triple.pure fun h ha => ha

theorem resume_at :
    Triple (σ := σ) W (At W (g.set r x))
      (do
        record (.flowed r (← request r).flushing)
        modifyRequest r fun req => { req with flowing := true })
      fun _ => Resumed W g r x := by
  refine Triple.of_run fun h a h' hrun => ?_
  cases hq : h.requests[r.index]? with
  | none => simp [run_bind, run_request_missing hq] at hrun
  | some q =>
    rw [run_bind, run_request hq, Option.bind_some, run_bind, run_record, Option.bind_some,
      run_modifyRequest] at hrun
    cases hrun
    exact ⟨rfl, fun ha => ⟨h, q, ha, hq, rfl⟩⟩

theorem startFlowing_at (huser : user.KeepsTo W) (hcall : Answers W call) (n : Nat) :
    Triple W (At W (g.set r { x with fresh := x.fresh + 1 }))
      (do
        record (.flowed r (← request r).flushing)
        modifyRequest r fun req => { req with flowing := true }
        flush user call r n) fun _ => At W (g.set r { x with fresh := x.fresh + 1 }) := by
  have hflow := (resume_at (g := g) (r := r) (x := { x with fresh := x.fresh + 1 })).bind
    fun _ => flushOwn_at huser hcall n
  simpa only [bind_assoc] using hflow

theorem performWork_at (huser : user.KeepsTo W) (hcall : Answers W call) (n : Nat) :
    Triple W (At W (g.set r { x with fresh := x.fresh + 1 })) (pass user call r n) fun _ =>
      At W (g.set r { x with fresh := x.fresh + 1 }) := by
  refine (pass_at huser hcall n).pre fun h ha => ?_
  obtain ⟨q, hq⟩ := ha.exists_of_busy (.inl (Nat.succ_pos _))
  exact ha.ghost (.visit (.ask hq (Nat.succ_pos _)))

theorem takeFatal_at :
    Triple (σ := σ) W (At W g)
      (do
        let fatal := (← request r).fatal
        modifyRequest r fun req => { req with fatal := none }
        pure fatal) fun _ => At W g := by
  refine Triple.request.bind fun q => ?_
  refine Triple.bind ((adjust_at fun q => ?_).pre fun h hP => hP.1) fun _ =>
    Triple.pure fun h ha => ha
  exact ⟨q.settings.sink, none, q.held, id, rfl⟩

theorem release_at :
    Triple (σ := σ) W (At W g) (modifyRequest r fun req => { req with held := false }) fun _ =>
      At W g :=
  adjust_at fun q => ⟨q.settings.sink, q.fatal, false, (fun hheld => nomatch hheld), rfl⟩

theorem memory_at : Triple (σ := σ) W (At W g) (memory? r) fun _ => At W g :=
  Triple.bind (Q := fun _ => At W g) (Triple.get fun _ ha => ha) fun _ =>
    Triple.pure fun _ ha => ha

/-! ## Calls -/

/-- The answer to a call that gives no news pays what is owed for it. -/
theorem possible_of_at {c : HostCall κ} {m : HostM κ σ c.Reply}
    (hm : Triple W (At W (g.owe c.debt)) m fun _ => At W g)
    (hc : ∀ inPass a, W.Possible inPass c a) :
    Triple W (At W (g.owe c.debt)) m fun a h =>
      At W g h ∧ W.Possible (Hands.InPass g) c a :=
  hm.post fun _ _ ha => ⟨ha, hc _ _⟩

theorem answer_at (huser : user.KeepsTo W) (hcall : Answers W call) (n : Nat) (c : HostCall κ)
    (hc : W.Handles c) (g : Hands κ) :
    Triple W (At W (g.owe c.debt)) (answer user n call c) fun a h =>
      At W g h ∧ W.Possible (Hands.InPass g) c a := by
  cases c with
  | note line => exact possible_of_at (note_at line) fun _ _ => trivial
  | hook hook =>
    refine Triple.bind (Triple.get (Q := fun h' h => At W g h ∧ h' = h) fun h ha => ⟨ha, rfl⟩)
      fun h' => Triple.pure ?_
    rintro h ⟨ha, rfl⟩
    refine ⟨ha, fun ⟨r, hr⟩ => ?_⟩
    rw [ha.inPass hr]
  | newPromise => exact possible_of_at (newPromise_at hc) fun _ _ => trivial
  | settle p outcome =>
    exact possible_of_at ((settleCell_at p outcome).bind fun reactions =>
      react_at hcall outcome reactions) fun _ _ => trivial
  | settleLater p outcome => exact possible_of_at (enqueueTask_at fun _ => rfl) fun _ _ => trivial
  | status p => exact status_at p
  | subscribe p f f' => exact possible_of_at (subscribe_at hcall hc) fun _ _ => trivial
  | invoke f =>
    cases f with
    | ping r s => exact possible_of_at (ping_at s) fun _ _ => trivial
    | user code => exact possible_of_at (react_user_at huser hcall code) fun _ _ => trivial
  | schedule code => exact possible_of_at (enqueueUser_at code) fun _ _ => trivial
  | runNext => exact possible_of_at (runNext_at huser hcall n) fun _ _ => trivial
  | runUntilIdle =>
    have hnext := (hcall.pays .runNext trivial g).post fun _ _ hP => hP.1
    have hrest := (hcall.pays .runUntilIdle trivial g).post fun _ _ hP => hP.1
    refine possible_of_at (hnext.bind fun ran => ?_) fun _ _ => trivial
    cases ran with
    | true => exact hrest.bind fun more => Triple.pure fun h ha => ha
    | false => exact Triple.pure fun h ha => ha
  | startWork r => exact possible_of_at (onHeld_at (start_at (Nat.succ_pos _))) fun _ _ => trivial
  | startFlowing r =>
    exact possible_of_at (onHeld_at (startFlowing_at huser hcall n)) fun _ _ => trivial
  | performWork r =>
    exact possible_of_at (onHeld_at (performWork_at huser hcall n)) fun _ _ => trivial
  | takeFatal r => exact possible_of_at (onHeld_at takeFatal_at) fun _ _ => trivial
  | release r => exact possible_of_at release_at fun _ _ => trivial
  | drain r =>
    refine possible_of_at (memory_at.bind fun m => ?_) fun _ _ => trivial
    cases m with
    | none => exact Triple.pure fun h ha => ha
    | some m =>
      refine Triple.bind (adjust_at fun q => ?_) fun _ => Triple.pure fun h ha => ha
      exact ⟨_, q.fatal, q.held, id, rfl⟩
  | collected r =>
    exact possible_of_at (memory_at.bind fun m => Triple.pure fun h ha => ha) fun _ _ => trivial

/-- In a bounded run every call is a course of turns, whatever the world. -/
theorem answers_perform (huser : user.KeepsTo W) (n : Nat) : Answers W (perform user n) := by
  induction n generalizing W with
  | zero => exact ⟨fun c _ _ _ hrun => (nomatch hrun), fun c hc g => Triple.failure⟩
  | succ n ih =>
    refine ⟨fun c => ?_, answer_at huser (ih huser) n⟩
    have hany := ih user.keepsTo_any
    exact (answer_at user.keepsTo_any hany n c (World.any.handles_of_may trivial)
      fun _ => {}).grows

end Host
end TreeStream
