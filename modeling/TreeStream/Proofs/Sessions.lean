import Mathlib.Logic.Relation
import TreeStream.Proofs.Performing

/-!
# Sessions

A session is any sequence of steps from outside: requests and streams are made, scripts are run,
queued tasks are run one by one, and the consumers of streams receive rows or go away. Whatever
state a session reaches, each request in it has taken some course.
-/

namespace TreeStream
namespace Host

variable {κ σ α : Type} {W : World κ} {g : Hands κ} {r : RequestId} {x : Hand κ}
  {user : UserCode κ σ}

/-- A step from outside, whose scripts make calls of `may` only. Runs are bounded by `n`. -/
inductive Step (user : UserCode κ σ) (may : HostCall κ → Prop) (h h' : Host κ σ) : Prop
  | create (settings : RequestSettings κ) (model : Model κ) {r : RequestId}
    (hrun : newRequest settings model h = some (r, h'))
  | stream (settings : RequestSettings κ) (limit : Nat) (model : Model κ) {r : RequestId}
    (hrun : newStream settings limit model h = some (r, h'))
  | script (n : Nat) {script : Script κ σ Unit} (hs : script.Makes may)
    (hrun : script.run (perform user n) h = some ((), h'))
  | task (n : Nat) {task : Task κ} {rest : List (Task κ)} (ht : h.tasks = task :: rest)
    (hrun : runTask user n task { h with tasks := rest } = some ((), h'))
  | receive (r : RequestId) {received : Received} (hrun : Host.receive r h = some (received, h'))
  | abandon (r : RequestId) (hrun : abandonStream r h = some ((), h'))

/-- A host in which nothing has happened yet but that some promises may have been settled. -/
def fresh (user : σ) (outcomes : Array (Outcome κ)) : Host κ σ where
  user := user
  promises := outcomes.map fun outcome => { status := .settled outcome }

/-- If the step makes the request, then from these modules and this model. -/
def MakesOf (r : RequestId) (modules : ModuleSource κ) (model : Model κ) (h h' : Host κ σ) :
    Prop :=
  h.requests[r.index]? = none → ∀ settings model',
    h'.requests[r.index]? = some (.ofModel settings model') →
      settings.modules = modules ∧ model' = model

theorem Step.mono {may may' : HostCall κ → Prop} {h h' : Host κ σ} (hstep : Step user may h h')
    (hmay : ∀ c, may c → may' c) : Step user may' h h' := by
  cases hstep with
  | create settings model hrun => exact .create settings model hrun
  | stream settings limit model hrun => exact .stream settings limit model hrun
  | script n hs hrun =>
    exact .script n (hs.imp hmay (fun _ _ ha => ha) fun _ ha => ha) hrun
  | task n ht hrun => exact .task n ht hrun
  | receive r hrun => exact .receive r hrun
  | abandon r hrun => exact .abandon r hrun

/-- The states that sessions reach. -/
def Reachable (user : UserCode κ σ) (may : HostCall κ → Prop) (h : Host κ σ) : Prop :=
  ∃ start outcomes, Relation.ReflTransGen (Step user may) (fresh start outcomes) h

/-! ## Streams -/

theorem setChannel_at (c : Channel) :
    Triple (σ := σ) W (At W g) (setChannel r c) fun _ => At W g :=
  adjust_at fun q => ⟨.channel c, q.fatal, q.held, id, rfl⟩

theorem channel_at : Triple (σ := σ) W (At W g) (channel r) fun _ => At W g := by
  refine Triple.request.bind fun q => ?_
  cases q.settings.sink.channel? with
  | none => exact Triple.failure
  | some c => exact Triple.pure fun h hP => hP.1

theorem setDriver_at (d : DriverState) :
    Triple (σ := σ) W (At W g) (setDriver r d) fun _ => At W g :=
  channel_at.bind fun _ => setChannel_at _

theorem queueDriver_at (woken : Bool) :
    Triple (σ := σ) W (At W g) (queueDriver r woken) fun _ => At W g := by
  cases woken with
  | true => exact enqueueTask_at fun _ => rfl
  | false => exact Triple.pure fun h ha => ha

theorem newStream_at (settings : RequestSettings κ) (limit : Nat) (model : Model κ) :
    Triple (σ := σ) W
      (fun h => At W g h ∧ W.origin ⟨h.requests.size⟩ settings.modules model)
      (newStream settings limit model) fun _ => At W g :=
  (newRequest_at _ model).bind fun _ => (enqueueTask_at fun _ => rfl).bind fun _ =>
    Triple.pure fun _ ha => ha

/-- A call that names no callback, made by the library itself. -/
theorem ask_at (huser : user.KeepsTo W) (n : Nat) {c : HostCall κ} (hc : W.Handles c)
    (hd : c.debt = []) :
    Triple W (At W g) (answer user n (perform user n) c) fun _ => At W g :=
  (answer_at huser (answers_perform huser n) n c hc g).conseq
    (fun _ ha => by rwa [hd, Hands.owe_nil]) fun _ _ hP => hP.1

theorem inspectStream_at (huser : user.KeepsTo W) (n : Nat) :
    Triple W (At W g) (inspectStream user r n) fun _ => At W g := by
  have hstop : ∀ b : Bool, Triple (σ := σ) W (At W g) (pure b) fun _ => At W g :=
    fun b => Triple.pure fun _ ha => ha
  refine Triple.request.bind fun q => ?_
  cases q.closed with
  | true => exact (hstop false).pre fun h hP => hP.1
  | false =>
    refine (channel_at.pre fun h hP => hP.1).bind fun c => ?_
    cases c.consumerGone with
    | true => exact hstop false
    | false =>
      refine (ask_at (c := .takeFatal r) huser n trivial rfl).bind fun fatal => ?_
      rcases fatal with _ | _ | e
      case some.some => exact hstop false
      all_goals
        refine Triple.request.bind fun q => ?_
        cases q.flowing with
        | true => exact (hstop true).pre fun h hP => hP.1
        | false =>
          refine ((ask_at (c := .startFlowing r) huser n trivial rfl).pre fun h hP => hP.1).bind
            fun flowed => ?_
          rcases flowed with _ | e | u
          · exact hstop true
          · exact hstop false
          · exact hstop true

theorem drive_at (huser : user.KeepsTo W) (n : Nat) :
    Triple W (At W g) (drive user r n) fun _ => At W g := by
  induction n with
  | zero => exact Triple.failure
  | succ n ih =>
    refine (inspectStream_at huser n).bind fun goesOn => ?_
    cases goesOn with
    | false => exact (setDriver_at .stopped).bind fun _ => release_at
    | true =>
      refine channel_at.bind fun c => ?_
      cases c.permit with
      | true => exact (setChannel_at _).bind fun _ => ih
      | false => exact setChannel_at _

theorem startDriver_at (huser : user.KeepsTo W) (n : Nat) :
    Triple W (At W g) (startDriver user r n) fun _ => At W g := by
  refine (setDriver_at .running).bind fun _ => ?_
  refine (ask_at (c := .startWork r) huser n trivial rfl).bind fun _ => channel_at.bind fun c => ?_
  cases c.permit with
  | true => exact (setChannel_at _).bind fun _ => drive_at huser n
  | false => exact setChannel_at _

theorem runDriver_at (huser : user.KeepsTo W) (n : Nat) :
    Triple W (At W g) (runDriver user r n) fun _ => At W g := by
  refine channel_at.bind fun c => ?_
  cases c.driver with
  | starting => exact startDriver_at huser n
  | stopped => exact Triple.pure fun h ha => ha
  | running => exact (setDriver_at .running).bind fun _ => drive_at huser n
  | waiting => exact (setDriver_at .running).bind fun _ => drive_at huser n
  | woken => exact (setDriver_at .running).bind fun _ => drive_at huser n

theorem receive_at : Triple (σ := σ) W (At W g) (Host.receive r) fun _ => At W g := by
  refine channel_at.bind fun c => ?_
  refine Triple.bind (Q := fun _ => At W g) (Triple.get fun _ ha => ha) fun h => ?_
  exact (setChannel_at _).bind fun _ => (queueDriver_at _).bind fun _ => Triple.pure fun _ ha => ha

theorem abandonStream_at : Triple (σ := σ) W (At W g) (abandonStream r) fun _ => At W g :=
  channel_at.bind fun _ => (setChannel_at _).bind fun _ => queueDriver_at _

/-! ## Steps -/

theorem runTask_at (huser : user.KeepsTo W) (n : Nat) {task : Task κ} {rest : List (Task κ)}
    {h h' : Host κ σ} (ht : h.tasks = task :: rest)
    (hrun : runTask user n task { h with tasks := rest } = some ((), h')) :
    h.Later h' ∧ (W.Agrees h' → At W g h → At W g h') := by
  cases task with
  | driver r =>
    obtain ⟨hl, hat⟩ := runDriver_at (g := g) huser n hrun
    refine ⟨hl, fun hw ha => hat hw (ha.same fun r' => ?_)⟩
    simp [view, ht, Task.isPassOf]
  | settle p outcome =>
    obtain ⟨hl, hat⟩ := ask_at (g := g) (c := .settle p outcome) huser n trivial rfl hrun
    refine ⟨hl, fun hw ha => hat hw (ha.same fun r' => ?_)⟩
    simp [view, ht, Task.isPassOf]
  | pass r =>
    have hpass := queuedPass_at (g := g) (r := r) (x := g r) huser (answers_perform huser n) n
    rw [Hands.set_eq_self] at hpass
    obtain ⟨hl, hat⟩ := hpass hrun
    refine ⟨hl, fun hw ha => hat hw ⟨h, ha, ?_, ?_, fun r' hr => ?_⟩⟩
    · simp only [view, ht, List.countP_cons, Task.isPassOf, decide_true, if_true]
      omega
    · simp [view, ht, Task.isPassOf]
    · have hne : ¬ r = r' := fun he => hr he.symm
      simp [view, ht, Task.isPassOf, hne]

theorem Step.at (huser : user.KeepsTo W) {h h' : Host κ σ} (hstep : Step user W.may h h')
    (hmade : W.Welcomes h h') : h.Later h' ∧ (W.Agrees h' → At W g h → At W g h') := by
  cases hstep with
  | create settings model hrun =>
    obtain ⟨hl, hat⟩ := newRequest_at (W := W) (g := g) settings model hrun
    rw [run_newRequest] at hrun
    cases hrun
    exact ⟨hl, fun hw ha => hat hw ⟨ha, hmade ⟨_⟩ settings model (by simp) Array.getElem?_push_size⟩⟩
  | stream settings limit model hrun =>
    obtain ⟨hl, hat⟩ := newStream_at (W := W) (g := g) settings limit model hrun
    rw [newStream, run_bind, run_newRequest] at hrun
    cases hrun
    have horigin := hmade ⟨h.requests.size⟩
      { settings with sink := .channel { limit := limit }, queue := .tasks } model (by simp)
      Array.getElem?_push_size
    exact ⟨hl, fun hw ha => hat hw ⟨ha, horigin⟩⟩
  | script n hs hrun =>
    obtain ⟨hl, hat⟩ := script_at (g := g) (answers_perform huser n) False.elim
      (W.tells_of_makes False hs) hrun
    exact ⟨hl, fun hw ha => (hat hw ha).1⟩
  | task n ht hrun => exact runTask_at huser n ht hrun
  | receive r hrun => exact receive_at hrun
  | abandon r hrun => exact abandonStream_at hrun

/-! ## Reachable states -/

theorem fresh_at (s : σ) (outcomes : Array (Outcome κ)) :
    At W (fun _ => {}) (fresh s outcomes) := by
  intro r
  refine Course.start fun cell hcell => ?_
  obtain ⟨outcome, -, rfl⟩ := Array.mem_map.mp hcell
  exact ⟨rfl, .inr fun hs => nomatch hs⟩

/-- Whatever a session does, each request has taken a course by then. -/
theorem course_of_steps (huser : user.KeepsTo W) {s : σ} {outcomes : Array (Outcome κ)}
    {h : Host κ σ} (hsteps : Relation.ReflTransGen
      (fun h h' => Step user W.may h h' ∧ W.Welcomes h h') (fresh s outcomes) h)
    (hw : W.Agrees h) (r : RequestId) : Course W r {} (h.view r) := by
  suffices hat : W.Agrees h → At W (fun _ => {}) h from hat hw r
  clear hw
  induction hsteps with
  | refl => exact fun _ => fresh_at s outcomes
  | tail _ hstep ih =>
    obtain ⟨hl, hat⟩ := hstep.1.at (g := fun _ => {}) huser hstep.2
    exact fun hw => hat hw (ih (hw.of_later hl))

theorem Reachable.course (huser : user.KeepsTo W) {h : Host κ σ} (hr : Reachable user W.may h)
    (ho : ∀ r modules model, W.origin r modules model) (hw : W.Agrees h) (r : RequestId) :
    Course W r {} (h.view r) := by
  obtain ⟨s, outcomes, hsteps⟩ := hr
  have hwelcome : ∀ h h' : Host κ σ, Step user W.may h h' →
      Step user W.may h h' ∧ W.Welcomes h h' :=
    fun _ _ hstep => ⟨hstep, fun r settings model _ _ => ho r settings.modules model⟩
  exact course_of_steps huser (Relation.ReflTransGen.mono hwelcome _ _ hsteps) hw r

theorem Reachable.course_any {h : Host κ σ} (hr : Reachable user (fun _ => True) h)
    (r : RequestId) : Course World.any r {} (h.view r) :=
  Reachable.course (W := World.any) user.keepsTo_any hr (fun _ _ _ => trivial)
    (fun _ _ _ => trivial) r

/-! ## Playing a session -/

/-- What a request and one script lead to in a fresh host in which these promises are settled. -/
def play (user : UserCode κ σ) (start : σ) (outcomes : Array (Outcome κ))
    (settings : RequestSettings κ) (model : Model κ) (script : Script κ σ Unit) (n : Nat) :
    Option (Host κ σ) :=
  (newRequest settings model (fresh start outcomes)).bind fun made =>
    (script.run (perform user n) made.2).map Prod.snd

theorem ofModel_inj {settings settings' : RequestSettings κ} {model model' : Model κ}
    (h : Request.ofModel settings model = .ofModel settings' model') :
    settings = settings' ∧ model = model' := by
  simpa only [Request.ofModel, Request.mk.injEq, Array.mk.injEq, List.cons.injEq,
    Segment.mk.injEq, Query.model.injEq, true_and, and_true] using h

/-- A play consists of two steps, and the first one makes the request. -/
theorem steps_of_play {may : HostCall κ → Prop} {start : σ} {outcomes : Array (Outcome κ)}
    {settings : RequestSettings κ} {model : Model κ} {script : Script κ σ Unit}
    (hs : script.Makes may) {n : Nat} {h : Host κ σ}
    (hplay : play user start outcomes settings model script n = some h) :
    Relation.ReflTransGen
      (fun h h' => Step user may h h' ∧ MakesOf ⟨0⟩ settings.modules model h h')
      (fresh start outcomes) h := by
  obtain ⟨⟨r, h₁⟩, hnew, hmap⟩ := Option.bind_eq_some_iff.mp hplay
  obtain ⟨⟨u, h₂⟩, hrun, rfl⟩ := Option.map_eq_some_iff.mp hmap
  have hmade : h₁.requests[0]? = some (.ofModel settings model) := by
    rw [run_newRequest] at hnew
    cases hnew
    rfl
  have hcreate : MakesOf ⟨0⟩ settings.modules model (fresh start outcomes) h₁ := by
    intro _ settings' model' hmade'
    obtain ⟨rfl, rfl⟩ := ofModel_inj (Option.some.inj (hmade.symm.trans hmade'))
    exact ⟨rfl, rfl⟩
  have hplayed : MakesOf ⟨0⟩ settings.modules model h₁ h₂ := by
    intro hnone
    cases hnone.symm.trans hmade
  exact (Relation.ReflTransGen.single ⟨.create settings model hnew, hcreate⟩).tail
    ⟨.script n hs hrun, hplayed⟩

theorem reachable_of_play {may : HostCall κ → Prop} {start : σ} {outcomes : Array (Outcome κ)}
    {settings : RequestSettings κ} {model : Model κ} {script : Script κ σ Unit}
    (hs : script.Makes may) {n : Nat} {h : Host κ σ}
    (hplay : play user start outcomes settings model script n = some h) :
    Reachable user may h := by
  refine ⟨start, outcomes, Relation.ReflTransGen.mono (fun _ _ hstep => ?_) _ _
    (steps_of_play hs hplay)⟩
  exact hstep.1

/-- A request that a play is seen to lead to is reached. -/
theorem exists_reachable (user : UserCode κ σ) {may : HostCall κ → Prop} {start : σ}
    {outcomes : Array (Outcome κ)} {settings : RequestSettings κ} {model : Model κ}
    {script : Script κ σ Unit} (hs : script.Makes may) {n : Nat} (p : Host κ σ → Request κ → Bool)
    (hp : (play user start outcomes settings model script n).any
      (fun h => h.requests[r.index]?.any (p h)) = true) :
    ∃ h q, Reachable user may h ∧ h.requests[r.index]? = some q ∧ p h q = true := by
  obtain ⟨h, hplay, hany⟩ := (Option.any_eq_true _ _).mp hp
  obtain ⟨q, hq, hpq⟩ := (Option.any_eq_true _ _).mp hany
  exact ⟨h, q, reachable_of_play hs hplay, hq, hpq⟩

end Host

/-! ## A component that is late

The smallest session in which work waits: one component, which renders to what the first promise is
fulfilled with. -/

namespace Late

def user : UserCode Unit Unit where
  render _ _ _ := .call (.status ⟨0⟩) fun (status : PromiseStatus Unit) => .done
    (match status with
    | .pending => .suspended (.promise ⟨0⟩)
    | .settled (.ok value) => .ready value
    | .settled (.error e) => .failed e)
  load _ := .done (.ready .null)
  toModel _ := .done .null
  await _ _ _ := .done ()
  react _ := .done ()
  metadata _ _ := .done (.ok .null)
  destination _ _ := .done .pass

def settings : RequestSettings Unit where
  modules := .manifest .empty

/-- User code stands in front of the destination. -/
def guarded : RequestSettings Unit where
  __ := settings
  guard := some ⟨(), .empty⟩

def model : Model Unit :=
  .array [.element
    { renderable := .function "Late" ⟨(), .empty⟩, key := none, props := .empty }]

/-- A block before the component. Its module is not to be found, so its slot gets an error row. -/
def crowd : Model Unit :=
  .array
    [.serverBlock { module := ⟨"Missing", "", []⟩, load := ⟨(), .empty⟩ },
      .element { renderable := .function "Late" ⟨(), .empty⟩, key := none, props := .empty }]

/-- The promise is made, and one pass is run. -/
def opening : Script Unit Unit Unit :=
  .call .newPromise fun _ => .call (.startWork ⟨0⟩) fun _ => .call .runNext fun _ => .done ()

def whole : Script Unit Unit Unit := do
  opening
  .call (.settle ⟨0⟩ (.ok (.string "done"))) fun _ => .call .runUntilIdle fun _ => .done ()

theorem whole_makes : whole.Makes HostCall.Plain :=
  ⟨trivial, fun _ _ => ⟨trivial, fun _ _ => ⟨trivial, fun _ _ => ⟨trivial, fun _ _ =>
    ⟨trivial, fun _ _ => trivial⟩⟩⟩⟩⟩

theorem opening_makes : opening.Makes fun _ => True :=
  ⟨trivial, fun _ _ => ⟨trivial, fun _ _ => ⟨trivial, fun _ _ => trivial⟩⟩⟩

end Late
end TreeStream
