import TreeStream.Proofs.Scopes
import TreeStream.Proofs.TwinSessions

/-!
# Hooks are told by their place

Whether a hook may be called is read off a mark that all requests share. Here the calls of scripts
are answered a second time, by `performScoped`, which never reads the mark: it is told whether a pass
is around the call, says so to the calls made inside, and says yes to whatever a pass runs. Sessions
that answer hooks in the one way and in the other are the same, so the mark is set exactly inside
passes, however they are nested and however they end.
-/

namespace TreeStream

open Host

variable {κ σ α : Type}

namespace Host

variable (user : UserCode κ σ)

/-- The answer to a call that is made inside a pass or outside of all, given how the calls of the
scripts it starts are answered inside and outside. What a pass runs is inside. -/
def answerScoped (n : Nat) (inside : Bool) (call : Bool → (c : HostCall κ) → HostM κ σ c.Reply) :
    (c : HostCall κ) → HostM κ σ c.Reply
  | .hook hook => pure (hook.permit inside)
  | .runNext => do
    match ← takeWork with
    | none => pure false
    | some (.pass r) =>
      queuedPass user (call true) r n
      pure true
    | some (.user code) =>
      (user.react code).run (call inside)
      pure true
  | .performWork r => onHeld r (pass user (call true) r n)
  | c => answer user n (call inside) c

/-- The answer to a call in a run that is bounded by `n`, where hooks are told by their place. -/
def performScoped : Nat → Bool → (c : HostCall κ) → HostM κ σ c.Reply
  | 0, _, _ => failure
  | n + 1, inside, c => answerScoped user n inside (performScoped n) c

/-! ## Tasks and moves with hooks told by their place -/

def inspectStreamScoped (r : RequestId) (n : Nat) : HostM κ σ Bool := do
  if (← request r).closed then pure false
  else if (← channel r).consumerGone then pure false
  else
    match ← performScoped user (n + 1) false (.takeFatal r) with
    | some (some _) => pure false
    | _ =>
      if (← request r).flowing then pure true
      else
        match ← performScoped user (n + 1) false (.startFlowing r) with
        | some (.error _) => pure false
        | _ => pure true

def driveScoped (r : RequestId) : Nat → HostM κ σ Unit
  | 0 => failure
  | n + 1 => do
    if ← inspectStreamScoped user r n then
      let c ← channel r
      if c.permit then
        setChannel r { c with permit := false }
        driveScoped r n
      else setChannel r { c with driver := .waiting }
    else
      setDriver r .stopped
      modifyRequest r fun req => { req with held := false }

def startDriverScoped (r : RequestId) (n : Nat) : HostM κ σ Unit := do
  setDriver r .running
  let _ ← performScoped user (n + 1) false (.startWork r)
  let c ← channel r
  if c.permit then
    setChannel r { c with permit := false }
    driveScoped user r n
  else setChannel r { c with driver := .waiting }

def runDriverScoped (r : RequestId) (n : Nat) : HostM κ σ Unit := do
  match (← channel r).driver with
  | .starting => startDriverScoped user r n
  | .stopped => pure ()
  | _ =>
    setDriver r .running
    driveScoped user r n

def runTaskScoped (n : Nat) : Task κ → HostM κ σ Unit
  | .pass r => queuedPass user (performScoped user n true) r n
  | .driver r => runDriverScoped user r n
  | .settle p outcome => performScoped user (n + 1) false (.settle p outcome)

def moveScoped (n : Nat) : Move κ σ → HostM κ σ (Option Received)
  | .script script => do
    script.run (performScoped user n false)
    pure none
  | .task => do
    match ← takeTask with
    | some task =>
      runTaskScoped user n task
      pure none
    | none => failure
  | x => move user n x

def movesScoped (n : Nat) (list : List (Move κ σ)) : HostM κ σ (List (Option Received)) :=
  list.mapM (moveScoped user n)

end Host

namespace Scoped

variable {mark : Bool} {r : RequestId} {user : UserCode κ σ}

/-! ## Calls -/

theorem running {m m' : HostM κ σ α} (hm : Scoped mark m m') :
    Scoped mark (running r m) (Host.running r m') :=
  bind (modifyRequest _) fun _ => bind hm fun _ => bind (modifyRequest _) fun _ => pure _

theorem onHeld {m m' : HostM κ σ α} (hm : Scoped mark m m') :
    Scoped mark (onHeld r m) (Host.onHeld r m') := by
  refine get fun h _ => ?_
  cases h.requests[r.index]? with
  | none => exact pure none
  | some req => exact ite (map some (running hm)) (pure none)

theorem newPromise : Scoped mark (newPromise : HostM κ σ PromiseId) Host.newPromise := by
  apply steady
  intro h p h' hrun
  cases hrun
  exact ⟨rfl, .of_eq rfl⟩

theorem settleCell (p : PromiseId) (outcome : Outcome κ) :
    Scoped mark (settleCell p outcome : HostM κ σ (List (Reaction κ)))
      (Host.settleCell p outcome) := by
  refine bind (promise p) fun cell => ?_
  cases cell.status with
  | pending => exact bind (modify (fun _ => rfl) fun _ => rfl) fun _ => pure _
  | settled settled => exact pure []

theorem takeWork : Scoped mark (takeWork : HostM κ σ (Option (Work κ))) Host.takeWork := by
  refine get fun h _ => ?_
  cases h.queue with
  | nil => exact pure none
  | cons work rest => exact bind (modify (fun _ => rfl) fun _ => rfl) fun _ => pure _

theorem memory? :
    Scoped mark (memory? r : HostM κ σ (Option MemorySink)) (Host.memory? r) :=
  get fun _ _ => pure _

/-- A call is answered alike if the calls inside of it are, under this mark and under a set one. -/
theorem answer {n : Nat} {call : (c : HostCall κ) → HostM κ σ c.Reply}
    {call' : Bool → (c : HostCall κ) → HostM κ σ c.Reply}
    (hcall : ∀ mark, CallsScoped mark call (call' mark)) :
    CallsScoped mark (answer user n call) (answerScoped user n mark call') := by
  have hmark := hcall mark
  intro c
  cases c with
  | note line => exact record nofun
  | hook hook =>
    intro h hin
    subst hin
    exact pure (hook.permit h.inPass) rfl
  | newPromise => exact newPromise
  | settle p outcome =>
    exact bind (settleCell p outcome) fun reactions => forM (fun _ => hmark _) reactions
  | settleLater p outcome => exact modify (fun _ => rfl) fun _ => rfl
  | status p => exact bind (promise p) fun _ => pure _
  | subscribe p f f' =>
    refine bind (promise p) fun cell => ?_
    cases cell.status with
    | pending => exact modify (fun _ => rfl) fun _ => rfl
    | settled outcome => exact hmark _
  | invoke f =>
    cases f with
    | ping r' s => exact ping s
    | user code => exact script hmark _
  | schedule code => exact modify (fun _ => rfl) fun _ => rfl
  | runNext =>
    refine bind takeWork fun work => ?_
    rcases work with _ | r' | code
    · exact pure _
    · exact bind (queuedPass (hcall true) n) fun _ => pure _
    · exact bind (script hmark _) fun _ => pure _
  | runUntilIdle =>
    exact bind (hmark .runNext) fun ran => ite (bind (hmark .runUntilIdle) fun _ => pure _) (pure _)
  | startWork r' =>
    exact onHeld (bind (modifyRequest _) fun _ => bind (record nofun) fun _ => schedulePass)
  | startFlowing r' =>
    exact onHeld (bind request fun _ => bind (record nofun) fun _ =>
      bind (modifyRequest _) fun _ => flush hmark n)
  | performWork r' => exact onHeld (pass (hcall true) n)
  | takeFatal r' => exact onHeld (bind request fun _ => bind (modifyRequest _) fun _ => pure _)
  | release r' => exact modifyRequest _
  | drain r' =>
    refine bind memory? fun m => ?_
    cases m with
    | none => exact pure none
    | some m => exact bind (modifyRequest _) fun _ => pure _
  | collected r' => exact bind memory? fun _ => pure _

/-- Every call is answered as if it were told whether a pass is around it. -/
theorem perform (n : Nat) (mark : Bool) :
    CallsScoped mark (perform user n) (performScoped user n mark) := by
  induction n generalizing mark with
  | zero => exact fun _ => failure
  | succ n ih => exact answer ih

/-! ## Tasks and moves -/

theorem channel : Scoped mark (channel r : HostM κ σ Channel) (Host.channel r) := by
  refine bind request fun q => ?_
  cases q.settings.sink.channel? with
  | none => exact failure
  | some c => exact pure c

theorem setDriver (d : DriverState) :
    Scoped mark (setDriver r d : HostM κ σ Unit) (Host.setDriver r d) :=
  bind channel fun _ => modifyRequest _

theorem queueDriver (woken : Bool) :
    Scoped mark (queueDriver r woken : HostM κ σ Unit) (Host.queueDriver r woken) :=
  ite (modify (fun _ => rfl) fun _ => rfl) (pure ())

/-- What a driver asks for is asked from outside of all passes. -/
theorem ask (n : Nat) (c : HostCall κ) :
    Scoped false (Host.answer user n (Host.perform user n) c) (performScoped user (n + 1) false c) :=
  perform (n + 1) false c

theorem inspectStream (n : Nat) :
    Scoped false (inspectStream user r n) (inspectStreamScoped user r n) := by
  refine bind request fun q => ite (pure _) (bind channel fun c => ite (pure _) ?_)
  refine bind (ask n _) fun fatal => ?_
  rcases fatal with _ | _ | e
  case some.some => exact pure _
  all_goals
    refine bind request fun q => ite (pure _) (bind (ask n _) fun resumed => ?_)
    rcases resumed with _ | _ | _ <;> exact pure _

theorem drive (n : Nat) : Scoped false (drive user r n) (driveScoped user r n) := by
  induction n with
  | zero => exact failure
  | succ n ih =>
    refine bind (inspectStream n) fun goesOn => ite ?_ ?_
    · exact bind channel fun c => ite (bind (modifyRequest _) fun _ => ih) (modifyRequest _)
    · exact bind (setDriver _) fun _ => modifyRequest _

theorem startDriver (n : Nat) :
    Scoped false (startDriver user r n) (startDriverScoped user r n) := by
  refine bind (setDriver _) fun _ => bind (ask n _) fun _ => bind channel fun c => ?_
  exact ite (bind (modifyRequest _) fun _ => drive n) (modifyRequest _)

theorem runDriver (n : Nat) : Scoped false (runDriver user r n) (runDriverScoped user r n) := by
  refine bind channel fun c => ?_
  cases c.driver with
  | starting => exact startDriver n
  | stopped => exact pure ()
  | _ => exact bind (setDriver _) fun _ => drive n

theorem runTask (n : Nat) (task : Task κ) :
    Scoped false (runTask user n task) (runTaskScoped user n task) := by
  cases task with
  | pass r => exact queuedPass (perform n true) n
  | driver r => exact runDriver n
  | settle p outcome => exact ask n (.settle p outcome)

theorem takeTask : Scoped mark (takeTask : HostM κ σ (Option (Task κ))) Host.takeTask := by
  refine get fun h _ => ?_
  cases h.tasks with
  | nil => exact pure none
  | cons task rest => exact bind (modify (fun _ => rfl) fun _ => rfl) fun _ => pure _

theorem receive : Scoped mark (receive r : HostM κ σ Received) (Host.receive r) :=
  bind channel fun _ => get fun _ _ => bind (modifyRequest _) fun _ => bind (queueDriver _) fun _ =>
    pure _

theorem abandonStream : Scoped mark (abandonStream r : HostM κ σ Unit) (Host.abandonStream r) :=
  bind channel fun _ => bind (modifyRequest _) fun _ => queueDriver _

theorem newRequest (settings : RequestSettings κ) (model : Model κ) :
    Scoped mark (newRequest settings model : HostM κ σ RequestId)
      (Host.newRequest settings model) := by
  apply steady
  intro h r h' hrun
  rw [run_newRequest] at hrun
  cases hrun
  exact ⟨rfl, (Tidy.of_eq rfl).trans (.tell nofun)⟩

theorem move (n : Nat) (x : Move κ σ) : Scoped false (move user n x) (moveScoped user n x) := by
  cases x with
  | create settings model => exact bind (newRequest settings model) fun _ => pure none
  | stream settings limit model =>
    exact bind (bind (newRequest _ model) fun _ => bind (modify (fun _ => rfl) fun _ => rfl)
      fun _ => pure _) fun _ => pure none
  | script script => exact bind (Scoped.script (perform n false) script) fun _ => pure none
  | task =>
    refine bind takeTask fun task => ?_
    cases task with
    | none => exact failure
    | some task => exact bind (runTask n task) fun _ => pure none
  | receive r => exact map some receive
  | abandon r => exact bind abandonStream fun _ => pure none

theorem moves (n : Nat) (list : List (Move κ σ)) :
    Scoped false (moves user n list) (movesScoped user n list) := by
  induction list with
  | nil => exact pure []
  | cons x list ih =>
    simp only [Host.moves, movesScoped, List.mapM_cons]
    exact bind (move n x) fun received => bind ih fun rest => pure (received :: rest)

end Scoped

namespace Host

/-- Between the moves of a session no pass is under way, and code of models ran under a set mark
only. -/
theorem Reachable.tidy {user : UserCode κ σ} {h : Host κ σ}
    (hreach : Reachable user (fun _ => True) h) :
    h.inPass = false ∧ ∀ e ∈ h.journal, ¬ e.IsStray := by
  obtain ⟨start, outcomes, hsteps⟩ := hreach
  induction hsteps with
  | refl => exact ⟨rfl, nofun⟩
  | tail _ hstep ih =>
    obtain ⟨hmark, hnone⟩ := ih
    obtain ⟨n, x, received, hrun⟩ := hstep.exists_move
    obtain ⟨hmark', htidy⟩ := (Scoped.move n x hmark).2 hrun
    exact ⟨hmark', fun e he hstray => hnone e (htidy e he hstray) hstray⟩

/-- Hooks see passes as scopes. Every call is answered as if its hooks were told whether a pass is
around them, and so is every session: a hook outside of all passes fails as an invalid call, also
one that a destination, a callback or a driver makes, and no hook inside a pass ever does, also after
passes inside of that one have ended. Each call and each pass leaves the mark as it was, whatever
error it ends with, and whatever code of a model a request runs finds the mark set. Between the moves
of a session the mark is not set. -/
theorem hooks_scoped (user : UserCode κ σ) :
    (∀ n c h, perform user n c h = performScoped user n h.inPass c h) ∧
    (∀ n xs start outcomes, moves user n xs (fresh start outcomes) =
      movesScoped user n xs (fresh start outcomes)) ∧
    (∀ hook : Hook, hook.permit false = .error .invalidHookCall ∧
      hook.permit true ≠ .error .invalidHookCall ∧
      (hook.unsupported? = none → hook.permit true = .ok ())) ∧
    (∀ n c h a h', perform user n c h = some (a, h') → h'.inPass = h.inPass ∧
      ∀ r step mark, .ran r step mark ∈ h'.journal → .ran r step mark ∉ h.journal →
        mark = true) ∧
    (∀ n r h result h', pass user (perform user n) r n h = some (result, h') →
      h'.inPass = h.inPass) ∧
    (∀ h, Reachable user (fun _ => True) h → h.inPass = false ∧
      ∀ r step mark, .ran r step mark ∈ h.journal → mark = true) := by
  refine ⟨?_, ?_, ?_, ?_, ?_, ?_⟩
  · intro n c h
    exact (Scoped.perform n h.inPass c rfl).1
  · intro n xs start outcomes
    exact (Scoped.moves n xs rfl).1
  · intro hook
    cases hook <;> decide
  · intro n c h a h' hrun
    obtain ⟨hmark, htidy⟩ := (Scoped.perform n h.inPass c rfl).2 hrun
    refine ⟨hmark, ?_⟩
    intro r step mark hran hnew
    cases mark with
    | true => rfl
    | false => exact absurd (htidy _ hran rfl) hnew
  · intro n r h result h' hrun
    exact ((Scoped.pass (Scoped.perform n true) n rfl).2 hrun).1
  · intro h hreach
    obtain ⟨hmark, hnone⟩ := hreach.tidy
    refine ⟨hmark, ?_⟩
    intro r step mark hran
    cases mark with
    | true => rfl
    | false => exact absurd rfl (hnone _ hran)

end Host

/-! ## A pass inside a render -/

namespace Nested

/-- Calls a hook and notes whether it may be called. -/
def tryHook {α : Type} (place : String) (next : Script Bool Unit α) : Script Bool Unit α :=
  .call (.hook .memo) fun (permitted : Except RenderError Unit) =>
    .call (.note (place ++ (match permitted with
      | .ok () => ": yes"
      | .error _ => ": no"))) fun _ => next

/-- The code `true` is a component that runs a pass of the second request while it renders. The
destination takes nothing. -/
def user : UserCode Bool Unit where
  render code _ _ :=
    if code.code then
      tryHook "outer" (.call (.performWork ⟨1⟩) fun _ =>
        tryHook "outer again" (.done (.ready .null)))
    else tryHook "inner" (.done (.ready .null))
  load _ := .done (.ready .null)
  toModel _ := .done .null
  await _ _ _ := .done ()
  react _ := tryHook "callback" (.done ())
  metadata _ _ := .done (.ok .null)
  destination _ _ := tryHook "destination" (.done (.fail (.destination "closed")))

def settings : RequestSettings Bool where
  modules := .manifest .empty
  guard := some ⟨false, .empty⟩

def model (outer : Bool) : Model Bool :=
  .element { renderable := .function "Component" ⟨outer, .empty⟩, key := none, props := .empty }

/-- The flow of the second request is resumed from outside, then a pass of the first is run, and last
a callback. -/
def moves : List (Move Bool Unit) :=
  [.create settings (model true), .create settings (model false),
    .script (.call (.startFlowing ⟨1⟩) fun _ => .call (.performWork ⟨0⟩) fun _ =>
      .call (.invoke (.user ⟨false, .empty⟩)) fun _ => .done ())]

end Nested

namespace Host

/-- The pass inside the render ends with an error of the destination, and the render still is in a
pass. -/
theorem hooks_scoped_nested :
    ∃ h : Host Bool Unit,
      moves Nested.user 20 Nested.moves (fresh () #[]) = some ([none, none, none], h) ∧
      movesScoped Nested.user 20 Nested.moves (fresh () #[]) = some ([none, none, none], h) ∧
      h.inPass = false ∧
      h.journal.reverse.filterMap (fun | .note line => some line | _ => none) =
        ["destination: no", "outer: yes", "inner: yes", "destination: yes", "outer again: yes",
          "callback: no"] := by
  have hplay : (moves Nested.user 20 Nested.moves (fresh () #[])).any (fun ended =>
      decide (ended.1 = [none, none, none] ∧ ended.2.inPass = false ∧
        ended.2.journal.reverse.filterMap (fun | .note line => some line | _ => none) =
          ["destination: no", "outer: yes", "inner: yes", "destination: yes", "outer again: yes",
            "callback: no"])) = true := by
    decide +kernel
  obtain ⟨⟨received, h⟩, hrun, hend⟩ := (Option.any_eq_true _ _).mp hplay
  obtain ⟨rfl, hmark, hnotes⟩ := of_decide_eq_true hend
  refine ⟨h, hrun, ?_, hmark, hnotes⟩
  rw [← (hooks_scoped Nested.user).2.1 20 Nested.moves () #[]]
  exact hrun

end Host
end TreeStream
