import TreeStream.Proofs.Sessions
import TreeStream.Proofs.TwinCalls

/-!
# Sessions of twins

What is done to a host from outside is a list of moves. If twins get moves that are alike, they stay
twins, and their streams hand over the same rows.
-/

namespace TreeStream

variable {κ σ : Type}

namespace Mirrors

open Host

variable {T : Twinning κ σ σ} {calls : RequestId → Nat} {tried : Tried} {r : RequestId}

/-! ## Streams -/

theorem channel : Tracks T calls tried Eq (Host.channel r : HostM κ σ Channel)
    fun _ => (Host.channel r : HostM κ σ Channel) := by
  refine request_same fun q segments strict => ?_
  dsimp only [Request.twin]
  cases q.settings.sink.channel? with
  | none => exact failure
  | some c => exact pure rfl

theorem setChannel (c : Channel) : Tracks T calls tried Eq (Host.setChannel r c : HostM κ σ Unit)
    fun _ => (Host.setChannel r c : HostM κ σ Unit) :=
  modifyRequest fun _ _ _ => ⟨rfl, rfl, rfl, rfl⟩

theorem setDriver (d : DriverState) : Tracks T calls tried Eq
    (Host.setDriver r d : HostM κ σ Unit) fun _ => (Host.setDriver r d : HostM κ σ Unit) :=
  bind_eq channel fun _ => setChannel _

theorem queueDriver (woken : Bool) : Tracks T calls tried Eq
    (Host.queueDriver r woken : HostM κ σ Unit)
    fun _ => (Host.queueDriver r woken : HostM κ σ Unit) := by
  refine ite (fun _ => change (fun _ => .of_eq rfl rfl) fun h h' ht => ?_) fun _ => pure rfl
  exact { ht with tasks := congrArg (· ++ [Task.driver r]) ht.tasks }

theorem receive : Tracks T calls tried Eq (Host.receive r : HostM κ σ Received)
    fun _ => (Host.receive r : HostM κ σ Received) := by
  refine bind_eq channel fun c => get fun h h' hl => ?_
  rw [hl.isAlive r]
  exact bind_eq (setChannel _) fun _ => bind_eq (queueDriver _) fun _ => pure rfl

theorem abandonStream : Tracks T calls tried Eq (Host.abandonStream r : HostM κ σ Unit)
    fun _ => (Host.abandonStream r : HostM κ σ Unit) :=
  bind_eq channel fun _ => bind_eq (setChannel _) fun _ => queueDriver _

section
variable {user user' : UserCode κ σ} (hsame : ∀ P s s', T.state P s s' ↔ s' = s)
  (halike : user.Alike T.wraps user') (hl : Legal T calls tried)
include hsame halike hl

theorem ask (n : Nat) (c : HostCall κ) :
    Tracks T calls tried Eq (Host.answer user n (Host.perform user n) c)
      fun m => Host.answer user' m (Host.perform user' m) c :=
  answer (perform hsame halike n) hl
    (fun P P' s s' h => (hsame P' s s').mpr ((hsame P s s').mp h)) n c

theorem inspectStream (n : Nat) : Tracks T calls tried Eq (Host.inspectStream user r n)
    fun m => Host.inspectStream user' r m := by
  refine request_same fun q segments strict => ite (fun _ => pure rfl) fun _ => ?_
  refine bind_eq channel fun c => ite (fun _ => pure rfl) fun _ => ?_
  refine bind_eq (ask hsame halike hl n (.takeFatal r)) fun fatal => ?_
  rcases fatal with _ | _ | e
  case some.some => exact pure rfl
  all_goals
    refine request_same fun q segments strict => ite (fun _ => pure rfl) fun _ => ?_
    refine bind_eq (ask hsame halike hl n (.startFlowing r)) fun resumed => ?_
    rcases resumed with _ | _ | _ <;> exact pure rfl

theorem drive (n j : Nat) : Tracks T calls tried Eq (Host.drive user r n)
    fun m => Host.drive user' r (m - j) := by
  induction n generalizing j with
  | zero => exact failure
  | succ n ih =>
    refine step (g := fun _ => Host.drive user' r) ?_
    refine bind_eq (less (j + 1) (inspectStream hsame halike hl n)) fun goes => ?_
    refine ite (fun _ => ?_) fun _ => bind_eq (setDriver _) fun _ => ?_
    · refine bind_eq channel fun c => ite (fun _ => ?_) fun _ => setChannel _
      exact bind_eq (setChannel _) fun _ => ih (j + 1)
    · exact modifyRequest fun _ _ _ => ⟨rfl, rfl, rfl, rfl⟩

theorem startDriver (n : Nat) : Tracks T calls tried Eq (Host.startDriver user r n)
    fun m => Host.startDriver user' r m := by
  refine bind_eq (setDriver _) fun _ => ?_
  refine bind_eq (ask hsame halike hl n (.startWork r)) fun _ => ?_
  refine bind_eq channel fun c => ite (fun _ => ?_) fun _ => setChannel _
  exact bind_eq (setChannel _) fun _ => drive hsame halike hl n 0

theorem runDriver (n : Nat) : Tracks T calls tried Eq (Host.runDriver user r n)
    fun m => Host.runDriver user' r m := by
  refine bind_eq channel fun c => ?_
  cases c.driver with
  | starting => exact startDriver hsame halike hl n
  | stopped => exact pure rfl
  | _ => exact bind_eq (setDriver _) fun _ => drive hsame halike hl n 0

theorem runTask (n : Nat) (task : Task κ) : Tracks T calls tried Eq (Host.runTask user n task)
    fun m => Host.runTask user' m task := by
  cases task with
  | pass r => exact queuedPass (perform hsame halike n) hl n
  | driver r => exact runDriver hsame halike hl n
  | settle p outcome => exact ask hsame halike hl n (.settle p outcome)

end

end Mirrors

/-! ## Moves -/

/-- What may be done to a host from outside. -/
inductive Move (κ σ : Type) where
  | create (settings : RequestSettings κ) (model : Model κ)
  | stream (settings : RequestSettings κ) (limit : Nat) (model : Model κ)
  | script (script : Script κ σ Unit)
  | task
  | receive (r : RequestId)
  | abandon (r : RequestId)

inductive Move.Alike (wraps : Bool) : Move κ σ → Move κ σ → Prop
  | refl (move : Move κ σ) : Alike wraps move move
  | create (settings : RequestSettings κ) {model model' : Model κ}
    (h : Model.Alike wraps model model') :
    Alike wraps (.create settings model) (.create settings model')
  | stream (settings : RequestSettings κ) (limit : Nat) {model model' : Model κ}
    (h : Model.Alike wraps model model') :
    Alike wraps (.stream settings limit model) (.stream settings limit model')

namespace Host

/-- Makes a move, with what a consumer receives by it. Runs are bounded by `n`, and a task can be
run only if there is one. -/
def move (user : UserCode κ σ) (n : Nat) : Move κ σ → HostM κ σ (Option Received)
  | .create settings model => do
    let _ ← newRequest settings model
    pure none
  | .stream settings limit model => do
    let _ ← newStream settings limit model
    pure none
  | .script script => do
    script.run (perform user n)
    pure none
  | .task => do
    match ← takeTask with
    | some task =>
      runTask user n task
      pure none
    | none => failure
  | .receive r => some <$> receive r
  | .abandon r => do
    abandonStream r
    pure none

def moves (user : UserCode κ σ) (n : Nat) (list : List (Move κ σ)) :
    HostM κ σ (List (Option Received)) := list.mapM (move user n)

section
variable {user : UserCode κ σ} {h h' : Host κ σ}

theorem run_aside {α β : Type} {m : HostM κ σ α} {b c : β} :
    (m >>= fun _ => pure c : HostM κ σ β) h = some (b, h') ↔
      (∃ a, m h = some (a, h')) ∧ b = c := by
  rw [run_bind]
  constructor
  · intro hrun
    obtain ⟨⟨a, h₁⟩, hfirst, hend⟩ := Option.bind_eq_some_iff.mp hrun
    cases hend
    exact ⟨⟨a, hfirst⟩, rfl⟩
  · rintro ⟨⟨a, hfirst⟩, rfl⟩
    rw [hfirst]
    rfl

theorem run_takeTask_cons {task : Task κ} {rest : List (Task κ)}
    (htasks : h.tasks = task :: rest) :
    takeTask h = some (some task, { h with tasks := rest }) := by
  simp only [takeTask, run_bind, run_get, Option.bind_some, htasks]
  rfl

theorem run_takeTask_nil (htasks : h.tasks = []) : takeTask h = some (none, h) := by
  simp only [takeTask, run_bind, run_get, Option.bind_some, htasks]
  rfl

theorem Step.exists_move (hstep : Step user (fun _ => True) h h') :
    ∃ n x received, move user n x h = some (received, h') := by
  cases hstep with
  | create settings model hrun =>
    exact ⟨0, .create settings model, none, run_aside.mpr ⟨⟨_, hrun⟩, rfl⟩⟩
  | stream settings limit model hrun =>
    exact ⟨0, .stream settings limit model, none, run_aside.mpr ⟨⟨_, hrun⟩, rfl⟩⟩
  | @script n script _ hrun =>
    exact ⟨n, .script script, none, run_aside.mpr ⟨⟨_, hrun⟩, rfl⟩⟩
  | @task n task rest htasks hrun =>
    refine ⟨n, .task, none, ?_⟩
    rw [move, run_bind, run_takeTask_cons htasks, Option.bind_some]
    exact run_aside.mpr ⟨⟨_, hrun⟩, rfl⟩
  | @receive r received hrun =>
    exact ⟨0, .receive r, some received, Option.bind_eq_some_iff.mpr ⟨_, hrun, rfl⟩⟩
  | abandon r hrun => exact ⟨0, .abandon r, none, run_aside.mpr ⟨⟨_, hrun⟩, rfl⟩⟩

theorem Step.of_move {n : Nat} {x : Move κ σ} {received : Option Received}
    (hrun : move user n x h = some (received, h')) : Step user (fun _ => True) h h' := by
  cases x with
  | create settings model =>
    obtain ⟨⟨r, hmade⟩, -⟩ := run_aside.mp hrun
    exact .create settings model hmade
  | stream settings limit model =>
    obtain ⟨⟨r, hmade⟩, -⟩ := run_aside.mp hrun
    exact .stream settings limit model hmade
  | script script =>
    obtain ⟨⟨u, hscript⟩, -⟩ := run_aside.mp hrun
    exact .script n (Script.always_of_forall (fun _ => trivial) (fun _ => trivial) script) hscript
  | task =>
    rw [move, run_bind] at hrun
    cases htasks : h.tasks with
    | nil =>
      rw [run_takeTask_nil htasks] at hrun
      cases hrun
    | cons task rest =>
      rw [run_takeTask_cons htasks, Option.bind_some] at hrun
      obtain ⟨⟨u, htask⟩, -⟩ := run_aside.mp hrun
      exact .task n htasks htask
  | receive r =>
    obtain ⟨⟨got, h₁⟩, hreceive, hend⟩ := Option.bind_eq_some_iff.mp hrun
    cases hend
    exact .receive r hreceive
  | abandon r =>
    obtain ⟨⟨u, habandon⟩, -⟩ := run_aside.mp hrun
    exact .abandon r habandon

/-- The steps of a session are the moves. -/
theorem step_iff_move :
    Step user (fun _ => True) h h' ↔ ∃ n x received, move user n x h = some (received, h') :=
  ⟨Step.exists_move, fun ⟨_, _, _, hrun⟩ => Step.of_move hrun⟩

end

end Host

/-- Each run of the action in the first host is matched in its twin while no call is under way. -/
def Matches (T : Twinning κ σ σ) {α : Type} (m : HostM κ σ α) (m' : Nat → HostM κ σ α) : Prop :=
  ∀ ⦃h a h₁⦄, m h = some (a, h₁) → h.journal <:+ h₁.journal ∧
    ∀ h', h.Twin T (fun _ => none) h' → h₁.Unspoilt T →
      ∃ N h₁', (∀ n ≥ N, m' n h' = some (a, h₁')) ∧ h₁.Twin T (fun _ => none) h₁'

namespace Matches

open Host

variable {T : Twinning κ σ σ} {α β : Type} {m : HostM κ σ α} {m' : Nat → HostM κ σ α}

theorem legal : Legal T (fun _ => 0) fun _ => none := fun _ hne => absurd rfl hne

theorem of_tracks (h : Tracks T (fun _ => 0) (fun _ => none) Eq m m') : Matches T m m' := by
  intro h₀ a h₁ hrun
  obtain ⟨hsteady, hmatch⟩ := h h₀ hrun
  refine ⟨hsteady.journal, fun h' ht hu => ?_⟩
  obtain ⟨N, _, h₁', hrun', rfl, ht₁⟩ := hmatch h' ht (fun _ hpos => nomatch hpos) hu
  exact ⟨N, h₁', hrun', ht₁⟩

theorem bind {k : α → HostM κ σ β} {k' : Nat → α → HostM κ σ β} (hm : Matches T m m')
    (hk : ∀ a, Matches T (k a) fun n => k' n a) : Matches T (m >>= k) fun n => m' n >>= k' n := by
  intro h b h₂ hrun
  obtain ⟨⟨a, h₁⟩, hfirst, hrest⟩ := Option.bind_eq_some_iff.mp hrun
  obtain ⟨hgrown, hmatch⟩ := hm hfirst
  obtain ⟨hgrown', hmatch'⟩ := hk a hrest
  refine ⟨hgrown.trans hgrown', fun h' ht hu => ?_⟩
  obtain ⟨N, h₁', hrun', ht₁⟩ := hmatch h' ht (hu.of_suffix hgrown')
  obtain ⟨N', h₂', hrest', ht₂⟩ := hmatch' h₁' ht₁ hu
  refine ⟨max N N', h₂', fun n hn => ?_, ht₂⟩
  change (m' n h').bind (fun p => k' n p.1 p.2) = _
  rw [hrun' n (le_trans (le_max_left N N') hn), Option.bind_some]
  exact hrest' n (le_trans (le_max_right N N') hn)

theorem pure (a : α) : Matches T (pure a : HostM κ σ α) fun _ => pure a :=
  of_tracks (Mirrors.pure rfl)

/-- Requests over models that are alike, perhaps with other strict checks. -/
theorem ofModel {strict : Bool} {settings : RequestSettings κ} {model model' : Model κ}
    (hstrict : T.lax = false → strict = settings.strict)
    (hmodel : Model.Alike T.wraps model model') :
    (Request.ofModel settings model).Twin T none
      (.ofModel { settings with strict := strict } model') := by
  have hempty : Segments.Twin T.wraps none (#[] : Array (Segment κ)) #[] :=
    ⟨rfl, fun s seg seg' hseg => by simp at hseg⟩
  exact ⟨_, strict, hstrict, hempty.push (.model hmodel) (RowId.ofNat 0)⟩

theorem newRequest {strict : Bool} {settings : RequestSettings κ} {model model' : Model κ}
    (hstrict : T.lax = false → strict = settings.strict)
    (hmodel : Model.Alike T.wraps model model') :
    Matches T (Host.newRequest settings model : HostM κ σ RequestId)
      fun _ =>
        (Host.newRequest { settings with strict := strict } model' : HostM κ σ RequestId) := by
  intro h r h₁ hrun
  rw [run_newRequest] at hrun
  cases hrun
  refine ⟨List.suffix_cons _ _, fun h' ht _ => ?_⟩
  have hrun' := run_newRequest { settings with strict := strict } model' h'
  rw [ht.size] at hrun'
  exact ⟨0, _, fun _ _ => hrun', (ht.push (ofModel hstrict hmodel)).tell _⟩

theorem newStream {strict : Bool} {settings : RequestSettings κ} {model model' : Model κ}
    (hstrict : T.lax = false → strict = settings.strict)
    (hmodel : Model.Alike T.wraps model model') (limit : Nat) :
    Matches T (Host.newStream settings limit model : HostM κ σ RequestId) fun _ =>
      (Host.newStream { settings with strict := strict } limit model' : HostM κ σ RequestId) := by
  refine bind (newRequest hstrict hmodel) fun r => ?_
  refine of_tracks (Mirrors.bind_eq (Mirrors.change (fun _ => .of_eq rfl rfl) fun h h' ht => ?_)
    fun _ => Mirrors.pure rfl)
  exact { ht with tasks := congrArg (· ++ [Task.driver r]) ht.tasks }

theorem takeTask : Matches T (Host.takeTask : HostM κ σ (Option (Task κ)))
    fun _ => (Host.takeTask : HostM κ σ (Option (Task κ))) := by
  refine of_tracks (Mirrors.get fun h h' hl => ?_)
  rw [hl.tasks]
  cases h.tasks with
  | nil => exact Mirrors.pure rfl
  | cons task rest =>
    exact Mirrors.bind_eq
      (Mirrors.change (fun _ => .of_eq rfl rfl) fun h h' ht => { ht with tasks := rfl })
      fun _ => Mirrors.pure rfl

section
variable {user user' : UserCode κ σ} (hsame : ∀ P s s', T.state P s s' ↔ s' = s)
  (halike : user.Alike T.wraps user')
include hsame halike

theorem move (n : Nat) {x x' : Move κ σ} (h : x.Alike T.wraps x') :
    Matches T (Host.move user n x) fun m => Host.move user' m x' := by
  cases h with
  | create settings hmodel =>
    exact bind (newRequest (fun _ => rfl) hmodel) fun _ => pure _
  | stream settings limit hmodel =>
    exact bind (newStream (fun _ => rfl) hmodel limit) fun _ => pure _
  | refl =>
    cases x with
    | create settings model => exact bind (newRequest (fun _ => rfl) (.refl model)) fun _ => pure _
    | stream settings limit model =>
      exact bind (newStream (fun _ => rfl) (.refl model) limit) fun _ => pure _
    | script script =>
      have hperform := Mirrors.perform hsame halike n
      have hscript := Mirrors.script hsame (hperform.asks legal) (.refl (fun _ => rfl) script)
      exact bind (of_tracks hscript) fun _ => pure _
    | task =>
      refine bind takeTask fun task => ?_
      cases task with
      | none => exact of_tracks Mirrors.failure
      | some task =>
        exact bind (of_tracks (Mirrors.runTask hsame halike legal n task)) fun _ => pure _
    | receive r => exact of_tracks (Mirrors.map Mirrors.receive fun _ _ h => congrArg some h)
    | abandon r => exact bind (of_tracks Mirrors.abandonStream) fun _ => pure _

/-- Lists of moves that are alike lead from twins to twins. -/
theorem moves (n : Nat) {xs xs' : List (Move κ σ)}
    (h : List.Forall₂ (Move.Alike T.wraps) xs xs') :
    Matches T (Host.moves user n xs) fun m => Host.moves user' m xs' := by
  induction h with
  | nil => exact pure []
  | cons hx _ ih =>
    simp only [Host.moves, List.mapM_cons]
    exact bind (move hsame halike n hx) fun _ => bind ih fun _ => pure _

end

end Matches
end TreeStream
