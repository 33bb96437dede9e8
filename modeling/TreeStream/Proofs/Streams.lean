import TreeStream.Proofs.Delivering
import TreeStream.Proofs.Driving

/-!
# Streams

A stream is rendered by tasks that run in any order, while its consumer receives rows at any time or
goes away. Nobody has a handle of its request. In whatever order all this happens, no row is lost,
rows that wait have something coming that writes them, and the channel holds at most five rows more
than its limit.
-/

namespace TreeStream

variable {κ σ α : Type} {r : RequestId} {limit : Nat} {received rows : List String}

namespace Host

variable {user : UserCode κ σ} {h h' : Host κ σ} {f : Flow κ} {q : Request κ} {c : Channel}

/-- A step of a session in which `r` is a stream with this limit, and the rows that its consumer
receives in the step. Any queued task may run. -/
inductive StreamStep (user : UserCode κ σ) (r : RequestId) (limit : Nat) (h : Host κ σ) :
    List String → Host κ σ → Prop
  | create (settings : RequestSettings κ) (model : Model κ) {r' : RequestId} {h' : Host κ σ}
    (hr : r' ≠ r) (hrun : newRequest settings model h = some (r', h')) :
    StreamStep user r limit h [] h'
  | stream (settings : RequestSettings κ) (limit' : Nat) (model : Model κ) {r' : RequestId}
    {h' : Host κ σ} (hr : r' = r → settings.guard = none ∧ limit' = limit)
    (hrun : newStream settings limit' model h = some (r', h')) : StreamStep user r limit h [] h'
  | script (n : Nat) {script : Script κ σ Unit} {h' : Host κ σ}
    (hs : script.Makes (HostCall.Spares r))
    (hrun : script.run (perform user n) h = some ((), h')) : StreamStep user r limit h [] h'
  | task (n : Nat) {before after : List (Task κ)} {task : Task κ} {h' : Host κ σ}
    (ht : h.tasks = before ++ task :: after)
    (hrun : runTask user n task { h with tasks := before ++ after } = some ((), h')) :
    StreamStep user r limit h [] h'
  | receive (r' : RequestId) {received : Received} {h' : Host κ σ}
    (hrun : Host.receive r' h = some (received, h')) :
    StreamStep user r limit h (if r' = r then received.row?.toList else []) h'
  | abandon (r' : RequestId) {h' : Host κ σ} (hrun : abandonStream r' h = some ((), h')) :
    StreamStep user r limit h [] h'

/-- The states that such sessions reach, and the rows that the consumer has received by then. -/
inductive Streamed (user : UserCode κ σ) (r : RequestId) (limit : Nat) :
    List String → Host κ σ → Prop
  | fresh (start : σ) (outcomes : Array (Outcome κ)) :
    Streamed user r limit [] (Host.fresh start outcomes)
  | step {received rows : List String} {h h' : Host κ σ} (hs : Streamed user r limit received h)
    (hstep : StreamStep user r limit h rows h') : Streamed user r limit (received ++ rows) h'

/-! ## What the steps keep -/

/-- Either the stream is not there, or its flow is at rest. -/
def StreamRests (r : RequestId) (limit : Nat) (received : List String) (h : Host κ σ) : Prop :=
  (h.line r = { request := none, drivers := 0, passes := 0, log := [] } ∧ received = []) ∨
    ∃ f : Flow κ, h.line r = f.line ∧ f.Rests r limit received

theorem StreamRests.of_line (hs : StreamRests r limit received h) (hl : h'.line r = h.line r) :
    StreamRests r limit received h' := by
  rwa [StreamRests, hl]

theorem StreamRests.quiet (hs : StreamRests r limit received h) : (h.line r).Quiet := by
  obtain ⟨hl, -⟩ | ⟨f, hl, -⟩ := hs
  · rw [hl]
    exact ⟨rfl, fun _ hq => (nomatch hq), fun _ hq => nomatch hq⟩
  · rw [hl]
    exact f.quiet_line

theorem StreamRests.leave (hs : StreamRests r limit received h) {m : HostM κ σ α} {a : α}
    (hm : Leaves r m) (hrun : m h = some (a, h')) : StreamRests r limit received h' :=
  hs.of_line (hm hs.quiet hrun)

theorem StreamRests.none_of_blank
    (hl : h.line r = { request := none, drivers := 0, passes := 0, log := [] }) :
    h.requests[r.index]? = none :=
  Option.map_eq_none_iff.mp (congrArg Line.request hl)

theorem rests_new (settings : RequestSettings κ) (r : RequestId) (limit : Nat) :
    ({ settings := settings, channel := { limit := limit } } : Flow κ).Rests r limit [] where
  kept :=
    { sane :=
        { limited := rfl
          count := rfl
          closed := rfl
          held := rfl
          drivers := rfl
          permit := fun h => nomatch h
          fresh := fun _ => ⟨rfl, rfl⟩
          weight := fun _ => by
            simp [Flow.load, Channel.level, Channel.wakes]
            omega
          bound := Nat.zero_le _ }
      connected := fun _ =>
        { fatal := rfl
          sound := fun _ _ h => nomatch h
          calm := fun h => nomatch h
          timely := fun h => nomatch h
          told := rfl
          started := fun h => nomatch h
          stopped := fun h => nomatch h }
      moves := fun _ h => nomatch h }
  running := rfl
  flushing := rfl
  driver := DriverState.noConfusion

theorem RequestId.eq_of_index {r r' : RequestId} (h : r.index = r'.index) : r = r' := by
  cases r
  cases r'
  cases h
  rfl

theorem line_newRequest (settings : RequestSettings κ) (model : Model κ)
    (hr : (⟨h.requests.size⟩ : RequestId) ≠ r) :
    ({ h with requests := h.requests.push (.ofModel settings model) }.tell
      (.issued ⟨h.requests.size⟩ (RowId.ofNat 0))).line r = h.line r := by
  have hne : r.index ≠ h.requests.size := fun he => hr (RequestId.eq_of_index he.symm)
  rw [line_tell rfl]
  simp [line, Array.getElem?_push, hne]

theorem StreamRests.newStream {settings : RequestSettings κ} {limit' : Nat} {model : Model κ}
    {r' : RequestId} (hs : StreamRests r limit received h)
    (hr : r' = r → settings.guard = none ∧ limit' = limit)
    (hrun : newStream settings limit' model h = some (r', h')) : StreamRests r limit received h' := by
  simp only [Host.newStream, run_bind, run_newRequest, Option.bind_some, run_modify, run_pure]
    at hrun
  cases hrun
  by_cases he : (⟨h.requests.size⟩ : RequestId) = r
  case pos =>
    obtain ⟨hguard, rfl⟩ := hr he
    subst he
    have hmissing : h.requests[h.requests.size]? = none := Array.getElem?_eq_none (Nat.le_refl _)
    obtain ⟨hl, rfl⟩ | ⟨f, hl, -⟩ := hs
    · refine .inr ⟨_, ?_, rests_new settings _ limit'⟩
      have hdrivers : h.tasks.countP (Task.isDriverOf ⟨h.requests.size⟩) = 0 :=
        congrArg Line.drivers hl
      have hpasses : h.queue.countP (Work.isPassOf ⟨h.requests.size⟩) = 0 :=
        congrArg Line.passes hl
      have hlog : h.journal.filter (Event.isFlowOf ⟨h.requests.size⟩) = [] :=
        congrArg Line.log hl
      simp [line, tell, Flow.line, Flow.outline, Request.outline, Request.ofModel, Event.isFlowOf,
        Task.isDriverOf, hdrivers, hpasses, hlog, hguard]
    · obtain ⟨q, hq, -⟩ := exists_of_line hl
      cases hmissing.symm.trans hq
  case neg =>
    have hqueued : ∀ h₁ : Host κ σ, ({ h₁ with
        tasks := h₁.tasks ++ [.driver ⟨h.requests.size⟩] } : Host κ σ).line r = h₁.line r := by
      intro h₁
      simp [line, Task.isDriverOf, he]
    exact hs.of_line ((hqueued _).trans (line_newRequest _ model he))

theorem queuedPass_missing {call : (c : HostCall κ) → HostM κ σ c.Reply} {n : Nat}
    (hr : h.requests[r.index]? = none) : queuedPass user call r n h = none := by
  have hmissing : request r { h.update r fun req => { req with running := req.running + 1 } with
      inPass := true } = none :=
    run_request_missing (requests_update_missing hr _)
  simp only [queuedPass, running, pass, tryPinged, run_bind, run_modifyRequest, run_get, run_modify,
    Option.bind_some, hmissing, Option.bind_none]

theorem channel_missing (hr : h.requests[r.index]? = none) : channel r h = none := by
  rw [channel, run_bind, run_request_missing hr]
  rfl

/-- The driver is taken from anywhere in the list of tasks. -/
theorem line_takeDriver {before after : List (Task κ)}
    (ht : h.tasks = before ++ .driver r :: after) :
    0 < (h.line r).drivers ∧ ({ h with tasks := before ++ after } : Host κ σ).line r =
      { h.line r with drivers := (h.line r).drivers - 1 } := by
  have hcount : h.tasks.countP (Task.isDriverOf r) =
      (before ++ after).countP (Task.isDriverOf r) + 1 := by
    rw [ht, List.countP_append, List.countP_append,
      List.countP_cons_of_pos (by simp [Task.isDriverOf])]
    omega
  simp only [line, hcount]
  exact ⟨Nat.succ_pos _, rfl⟩

theorem line_takeOther {before after : List (Task κ)} {task : Task κ}
    (ht : h.tasks = before ++ task :: after) (hd : task.isDriverOf r = false) :
    ({ h with tasks := before ++ after } : Host κ σ).line r = h.line r := by
  simp [line, ht, List.countP_append, hd]

/-- A task runs that has left the list. -/
theorem StreamRests.task (huser : user.Spares r) (hlimit : 1 ≤ limit)
    (hs : StreamRests r limit received h) (n : Nat) {before after : List (Task κ)} {task : Task κ}
    (ht : h.tasks = before ++ task :: after)
    (hrun : runTask user n task { h with tasks := before ++ after } = some ((), h')) :
    StreamRests r limit received h' := by
  have hothers (hd : task.isDriverOf r = false) :
      StreamRests r limit received ({ h with tasks := before ++ after } : Host κ σ) :=
    hs.of_line (line_takeOther ht hd)
  cases task with
  | settle p outcome =>
    exact (hothers rfl).leave
      (answer_leaves huser (perform_leaves huser n) n (.settle p outcome) trivial) hrun
  | pass r' =>
    by_cases hr : r' = r
    · subst hr
      obtain ⟨hl, -⟩ | ⟨f, hl, hf⟩ := hothers rfl
      · exact nomatch (queuedPass_missing (StreamRests.none_of_blank hl)).symm.trans hrun
      · exact .inr (queuedPass_brings huser (perform_leaves huser n) hf n hl hrun)
    · exact (hothers rfl).leave (queuedPass_leaves huser (perform_leaves huser n) hr n) hrun
  | driver r' =>
    by_cases hr : r' = r
    · subst hr
      obtain ⟨hdrivers, hline⟩ := line_takeDriver ht
      obtain ⟨hl, -⟩ | ⟨f, hl, hf⟩ := hs <;> rw [hl] at hdrivers hline
      · exact absurd hdrivers (Nat.lt_irrefl 0)
      · exact .inr (runDriver_brings hlimit hf hdrivers n hline hrun)
    · exact (hothers (by simpa [Task.isDriverOf] using hr)).leave (runDriver_leaves huser hr n) hrun

theorem StreamRests.receive (hs : StreamRests r limit received h) {r' : RequestId} {a : Received}
    (hrun : Host.receive r' h = some (a, h')) :
    StreamRests r limit (received ++ if r' = r then a.row?.toList else []) h' := by
  by_cases hr : r' = r
  · subst hr
    rw [if_pos rfl]
    obtain ⟨hl, -⟩ | ⟨f, hl, hf⟩ := hs
    · rw [Host.receive, run_bind, channel_missing (StreamRests.none_of_blank hl)] at hrun
      cases hrun
    · exact .inr (receive_brings hf hl hrun)
  · rw [if_neg hr, List.append_nil]
    exact hs.leave (receive_leaves hr) hrun

theorem StreamRests.abandon (hs : StreamRests r limit received h) {r' : RequestId}
    (hrun : abandonStream r' h = some ((), h')) : StreamRests r limit received h' := by
  by_cases hr : r' = r
  · subst hr
    obtain ⟨hl, -⟩ | ⟨f, hl, hf⟩ := hs
    · rw [abandonStream, run_bind, channel_missing (StreamRests.none_of_blank hl)] at hrun
      cases hrun
    · exact .inr (abandonStream_brings hf hl hrun)
  · exact hs.leave (abandonStream_leaves hr) hrun

theorem StreamRests.step (huser : user.Spares r) (hlimit : 1 ≤ limit)
    (hs : StreamRests r limit received h) (hstep : StreamStep user r limit h rows h') :
    StreamRests r limit (received ++ rows) h' := by
  cases hstep with
  | receive r' hrun => exact hs.receive hrun
  | create settings model hr hrun =>
    rw [run_newRequest] at hrun
    cases hrun
    rw [List.append_nil]
    exact hs.of_line (line_newRequest settings model hr)
  | stream settings limit' model hr hrun =>
    rw [List.append_nil]
    exact hs.newStream hr hrun
  | script n hmakes hrun =>
    rw [List.append_nil]
    exact hs.leave (script_leaves (perform_leaves huser n) hmakes) hrun
  | task n ht hrun =>
    rw [List.append_nil]
    exact hs.task huser hlimit n ht hrun
  | abandon r' hrun =>
    rw [List.append_nil]
    exact hs.abandon hrun

theorem Streamed.rests (huser : user.Spares r) (hlimit : 1 ≤ limit)
    (hs : Streamed user r limit received h) : StreamRests r limit received h := by
  induction hs with
  | fresh start outcomes => exact .inl ⟨by simp [line, Host.fresh], rfl⟩
  | step hs hstep ih => exact ih.step huser hlimit hstep

/-! ## The course of the request -/

/-- The order of the tasks matters to no request. -/
theorem StreamStep.at {g : Hands κ} (hstep : StreamStep user r limit h rows h')
    (ha : At World.any g h) : At World.any g h' := by
  have hgo : ∀ {h₀ : Host κ σ}, At World.any g h₀ → Step user (fun _ => True) h₀ h' →
      At World.any g h' := fun ha₀ hs =>
    (hs.at (W := World.any) user.keepsTo_any fun _ _ _ _ _ => trivial).2 (fun _ _ _ => trivial) ha₀
  cases hstep with
  | create settings model hr hrun => exact hgo ha (.create settings model hrun)
  | stream settings limit' model hr hrun => exact hgo ha (.stream settings limit' model hrun)
  | @script n script _ hmakes hrun =>
    have hany : script.Makes fun _ => True :=
      Script.always_of_forall (fun _ => trivial) (fun _ => trivial) script
    exact hgo ha (.script n hany hrun)
  | @task n before after task _ ht hrun =>
    have hsame : At World.any g ({ h with tasks := task :: (before ++ after) } : Host κ σ) := by
      refine ha.same fun r' => ?_
      simp only [view, ht, List.countP_append, List.countP_cons]
      congr 1
      omega
    exact hgo hsame (.task n rfl hrun)
  | receive r' hrun => exact hgo ha (.receive r' hrun)
  | abandon r' hrun => exact hgo ha (.abandon r' hrun)

theorem Streamed.course (hs : Streamed user r limit received h) (r' : RequestId) :
    Course World.any r' {} (h.view r') := by
  suffices ha : At World.any (fun _ => {}) h from ha r'
  induction hs with
  | fresh start outcomes => exact fresh_at start outcomes
  | step hs hstep ih => exact hstep.at ih

/-! ## Playing a session with a stream -/

inductive StreamMove (κ σ : Type)
  | script (run : Script κ σ Unit)
  | task
  | receive

def StreamMove.Spares (r : RequestId) : StreamMove κ σ → Prop
  | .script run => run.Makes (HostCall.Spares r)
  | _ => True

def StreamMove.play (user : UserCode κ σ) (r : RequestId) (n : Nat) (h : Host κ σ) :
    StreamMove κ σ → Option (List String × Host κ σ)
  | .script run => (run.run (perform user n) h).map fun a => ([], a.2)
  | .task =>
    match h.tasks with
    | [] => none
    | t :: rest => (runTask user n t { h with tasks := rest }).map fun a => ([], a.2)
  | .receive => (Host.receive r h).map fun a => (a.1.row?.toList, a.2)

def playMoves (user : UserCode κ σ) (r : RequestId) (n : Nat) :
    List (StreamMove κ σ) → List String × Host κ σ → Option (List String × Host κ σ)
  | [], s => some s
  | move :: moves, s =>
    (move.play user r n s.2).bind fun a => playMoves user r n moves (s.1 ++ a.1, a.2)

/-- What a stream and these steps lead to in a fresh host. -/
def playStream (user : UserCode κ σ) (start : σ) (settings : RequestSettings κ) (limit : Nat)
    (model : Model κ) (moves : List (StreamMove κ σ)) (n : Nat) :
    Option (List String × Host κ σ) :=
  (newStream settings limit model (fresh start #[])).bind fun made =>
    playMoves user ⟨0⟩ n moves ([], made.2)

theorem StreamMove.step {move : StreamMove κ σ} {n : Nat} (hm : move.Spares r)
    (hplay : move.play user r n h = some (rows, h')) : StreamStep user r limit h rows h' := by
  cases move with
  | script run =>
    obtain ⟨⟨u, h₁⟩, hrun, ha⟩ := Option.map_eq_some_iff.mp hplay
    cases ha
    exact .script n hm hrun
  | task =>
    rw [StreamMove.play] at hplay
    split at hplay
    · cases hplay
    · rename_i t rest ht
      have htasks : h.tasks = [] ++ t :: rest := ht
      obtain ⟨⟨u, h₁⟩, hrun, ha⟩ := Option.map_eq_some_iff.mp hplay
      cases ha
      exact .task n htasks hrun
  | receive =>
    obtain ⟨⟨received, h₁⟩, hrun, ha⟩ := Option.map_eq_some_iff.mp hplay
    cases ha
    have hstep : StreamStep user r limit h (if r = r then received.row?.toList else []) h₁ :=
      .receive r hrun
    rwa [if_pos rfl] at hstep

theorem Streamed.moves {moves : List (StreamMove κ σ)} {n : Nat} {received' : List String}
    (hs : Streamed user r limit received h) (hm : ∀ move ∈ moves, move.Spares r)
    (hplay : playMoves user r n moves (received, h) = some (received', h')) :
    Streamed user r limit received' h' := by
  induction moves generalizing received h with
  | nil =>
    cases hplay
    exact hs
  | cons move moves ih =>
    obtain ⟨⟨rows, h₁⟩, hmove, hrest⟩ := Option.bind_eq_some_iff.mp hplay
    exact ih (hs.step (StreamMove.step (hm move List.mem_cons_self) hmove))
      (fun move hmem => hm move (List.mem_cons_of_mem _ hmem)) hrest

theorem streamed_of_playStream {start : σ} {settings : RequestSettings κ} {model : Model κ}
    {moves : List (StreamMove κ σ)} {n : Nat} (hg : settings.guard = none)
    (hm : ∀ move ∈ moves, move.Spares ⟨0⟩)
    (hplay : playStream user start settings limit model moves n = some (received, h)) :
    Streamed user ⟨0⟩ limit received h := by
  obtain ⟨⟨r, h₁⟩, hnew, hmoves⟩ := Option.bind_eq_some_iff.mp hplay
  have hstart : Streamed user ⟨0⟩ limit [] h₁ :=
    (Streamed.fresh start #[]).step (.stream settings limit model (fun _ => ⟨hg, rfl⟩) hnew)
  exact hstart.moves hm hmoves

theorem exists_streamed (user : UserCode κ σ) {start : σ} {settings : RequestSettings κ}
    {model : Model κ} {moves : List (StreamMove κ σ)} {n : Nat} (hg : settings.guard = none)
    (hm : ∀ move ∈ moves, move.Spares ⟨0⟩)
    (p : List String → Host κ σ → Request κ → Channel → Bool)
    (hp : (playStream user start settings limit model moves n).any (fun s =>
      s.2.requests[0]?.any fun q => q.settings.sink.channel?.any fun c => p s.1 s.2 q c) = true) :
    ∃ received h q c, Streamed user ⟨0⟩ limit received h ∧ h.requests[0]? = some q ∧
      q.settings.sink = .channel c ∧ p received h q c = true := by
  obtain ⟨⟨received, h⟩, hplay, hany⟩ := (Option.any_eq_true _ _).mp hp
  obtain ⟨q, hq, hany⟩ := (Option.any_eq_true _ _).mp hany
  obtain ⟨c, hc, hpc⟩ := (Option.any_eq_true _ _).mp hany
  refine ⟨received, h, q, c, streamed_of_playStream hg hm hplay, hq, ?_, hpc⟩
  cases hsink : q.settings.sink with
  | channel c' =>
    rw [hsink] at hc
    exact congrArg _ (Option.some.inj hc)
  | _ =>
    rw [hsink] at hc
    cases hc

end Host

/-! ## A stream of a block and a late component -/

namespace Late

theorem user_spares : user.Spares r where
  render _ _ _ := ⟨trivial, fun _ _ => trivial⟩
  load _ := trivial
  toModel _ := trivial
  await _ _ _ := trivial
  react _ := trivial
  metadata _ _ := trivial
  destination _ _ := trivial

/-- The driver starts, and one pass is run. -/
def streamOpening : List (Host.StreamMove Unit Unit) :=
  [.script (.call .newPromise fun _ => .done ()), .task, .task]

def streamResumed : List (Host.StreamMove Unit Unit) :=
  streamOpening ++
    [.script (.call (.settle ⟨0⟩ (.ok (.string "done"))) fun _ => .done ()), .task, .receive,
      .receive]

theorem streamOpening_spares : ∀ move ∈ streamOpening, move.Spares r := by
  simp [streamOpening, Host.StreamMove.Spares, Script.Makes, Script.Always, HostCall.Spares]

theorem streamResumed_spares : ∀ move ∈ streamResumed, move.Spares r := by
  simp [streamResumed, streamOpening, Host.StreamMove.Spares, Script.Makes, Script.Always,
    HostCall.Spares]

end Late

namespace Host

variable {user : UserCode κ σ} {h h' : Host κ σ} {f : Flow κ} {q : Request κ} {c : Channel}

/-! ## Nothing stalls and nothing is lost -/

theorem mem_log_iff (hl : h.line r = f.line) {e : Event} (he : e.isFlowOf r = true) :
    e ∈ f.log ↔ e ∈ h.journal := by
  have hlog : h.journal.filter (Event.isFlowOf r) = f.log := congrArg Line.log hl
  rw [← hlog, List.mem_filter]
  exact and_iff_left he

theorem handedIn_eq (hl : h.line r = f.line) : Event.handedIn f.log = h.handed r := by
  have hlog : h.journal.filter (Event.isFlowOf r) = f.log := congrArg Line.log hl
  rw [← hlog, handed, view]
  generalize h.journal = journal
  induction journal with
  | nil => rfl
  | cons e journal ih =>
    cases hrow : e.handedRow? with
    | none =>
      have hquiet : ∀ p : Event → Bool, Event.handedIn ((e :: journal).filter p) =
          Event.handedIn (journal.filter p) := by
        intro p
        rw [List.filter_cons]
        split
        · exact Event.handedIn_quiet hrow _
        · rfl
      rw [hquiet, hquiet]
      exact ih
    | some row =>
      have hsame : e.isFlowOf r = e.isOf r := by
        cases e with
        | called r' c answer => simp [Event.isFlowOf, Event.isOf, Event.request?]
        | _ => cases hrow
      rw [List.filter_cons, List.filter_cons, hsame]
      split
      · rw [Event.handedIn_cons, Event.handedIn_cons]
        exact congrArg (· ++ _) ih
      · exact ih

theorem view_of_connected (hc : f.Connected r received) (hl : h.line r = f.line) :
    (h.view r).Calm r ∧ (h.view r).Sound ∧ (h.view r).Timely r := by
  have hmem : ∀ {e : Event}, e.isFlowOf r = true → e ∉ f.log → e ∉ (h.view r).log :=
    fun he hnot hmem => hnot ((mem_log_iff hl he).mpr (mem_journal_of_log hmem))
  refine ⟨hmem (by simp [Event.isFlowOf]) hc.calm, fun r' c e hcalled => ?_,
    fun later earlier hlog => ?_⟩
  · obtain rfl := eq_of_mem_log hcalled rfl
    exact hmem (by simp [Event.isFlowOf]) (hc.sound c e) hcalled
  · refine absurd ?_ (hmem (by simp [Event.isFlowOf]) hc.timely)
    rw [hlog]
    exact List.mem_append_right _ List.mem_cons_self

theorem mem_tasks_of_drivers (hl : h.line r = f.line) (hd : 0 < f.drivers) :
    .driver r ∈ h.tasks := by
  have hcount : h.tasks.countP (Task.isDriverOf r) = f.drivers := congrArg Line.drivers hl
  obtain ⟨task, hmem, hof⟩ := List.countP_pos_iff.mp (hcount ▸ hd)
  cases task with
  | driver r' =>
    obtain rfl : r' = r := by simpa [Task.isDriverOf] using hof
    exact hmem
  | _ => cases hof

theorem mem_tasks_of_passes (hl : h.line r = f.line) (hp : 0 < (h.view r).passes) :
    .pass r ∈ h.tasks := by
  have hqueue : h.queue.countP (Work.isPassOf r) = 0 := congrArg Line.passes hl
  rw [view, hqueue, Nat.zero_add] at hp
  obtain ⟨task, hmem, hof⟩ := List.countP_pos_iff.mp hp
  cases task with
  | pass r' =>
    obtain rfl : r' = r := by simpa [Task.isPassOf] using hof
    exact hmem
  | _ => cases hof

theorem StreamRests.exists_flow (hs : StreamRests r limit received h)
    (hq : h.requests[r.index]? = some q) (hc : q.settings.sink = .channel c) :
    ∃ f : Flow κ, h.line r = f.line ∧ f.Rests r limit received ∧ q.outline = f.outline ∧
      f.channel = c := by
  obtain ⟨hl, -⟩ | ⟨f, hl, hf⟩ := hs
  · exact nomatch (StreamRests.none_of_blank hl).symm.trans hq
  · obtain ⟨q', hq', hout⟩ := exists_of_line hl
    cases hq.symm.trans hq'
    have hsink : q.settings.sink = .channel f.channel := congrArg (fun q => q.settings.sink) hout
    exact ⟨f, hl, hf, hout, (Sink.channel.inj (hc.symm.trans hsink)).symm⟩

/-- The consumer is told of the end once the channel is empty and no row can follow. -/
theorem receive_ended (hq : h.requests[r.index]? = some q) (hc : q.settings.sink = .channel c)
    (hrun : Host.receive r h = some (.ended, h')) :
    c.rows = [] ∧ (c.completed = true ∨ q.held = false) := by
  have hchannel : channel r h = some (c, h) := by
    rw [channel, run_bind, run_request hq, Option.bind_some, hc]
    rfl
  simp only [Host.receive, run_bind, hchannel, run_get, Option.bind_some] at hrun
  have hended : (c.receive (h.isAlive r)).1 = .ended := by
    obtain ⟨⟨u, h₁⟩, -, hrest⟩ := Option.bind_eq_some_iff.mp hrun
    obtain ⟨⟨u, h₂⟩, -, hlast⟩ := Option.bind_eq_some_iff.mp hrest
    exact congrArg Prod.fst (Option.some.inj hlast)
  cases hrows : c.rows with
  | cons row rest =>
    rw [Channel.receive, hrows] at hended
    simp only at hended
    split at hended <;> cases hended
  | nil =>
    refine ⟨rfl, ?_⟩
    by_contra hends
    obtain ⟨hcompleted, hheld⟩ := not_or.mp hends
    have halive : h.isAlive r = true := by simp [isAlive, hq, hheld]
    simp [Channel.receive, hrows, halive, hcompleted] at hended

/-- In every state between tasks, in whatever order tasks run, promises settle and the consumer
receives: as long as the consumer is there, the rows it has received and those in the channel are
the rows that were handed over, in order, and the channel counts its rows right, so its count never
falls below zero. Once the work was started, rows are queued only while the channel is full, a wake
of the driver is outstanding or a work pass is scheduled. The consumer is told that there is no other
row only when the stream is complete; then the destination was closed, and every row of the request
was received. -/
theorem stream_delivered (user : UserCode κ σ) (huser : user.Spares r) (hlimit : 1 ≤ limit)
    (hs : Streamed user r limit received h) (hq : h.requests[r.index]? = some q)
    (hc : q.settings.sink = .channel c) (hgone : c.consumerGone = false) :
    received ++ c.rows = (h.handed r).map Row.text ∧ c.buffered = c.rows.length ∧
    (.started r ∈ h.journal → q.queued ≠ [] → limit ≤ c.buffered ∨
      (c.driver = .woken ∧ .driver r ∈ h.tasks) ∨ .pass r ∈ h.tasks) ∧
    (∀ h', Host.receive r h = some (.ended, h') → c.isComplete = true) ∧
    (c.isComplete = true → received = (h.handed r).map Row.text ∧
      ((h.handed r).map Row.id).Perm (h.issued r) ∧ q.openIds = [] ∧ q.queued = [] ∧
      ∃ welcome, .called r .close (.ok welcome) ∈ h.journal) := by
  obtain ⟨f, hl, hf, hout, rfl⟩ := (hs.rests huser hlimit).exists_flow hq hc
  have hsane := hf.kept.sane
  have hconnected := hf.kept.connected hgone
  obtain ⟨hcalm, hsound, htimely⟩ := view_of_connected hconnected hl
  have hcourse := hs.course r
  have hb := hcourse.balanced (hcourse.apart hcalm) hq
  have hclosed : q.closed = f.channel.completed := (congrArg Request.closed hout).trans hsane.closed
  refine ⟨?_, hsane.count, fun hstarted hqueued => ?_, fun h' hrun => ?_, fun hcomplete => ?_⟩
  · rw [← handedIn_eq hl]
    exact hconnected.told
  · have hmoves := hf.kept.moves hgone ((mem_log_iff hl (by simp [Event.isFlowOf])).mpr hstarted)
      hf.driver
    obtain hempty | (hstopped | hpass) | hpasses | hdelivery :=
      (hcourse.delivers hcalm hsound htimely hq).moving
    · exact absurd hempty hqueued
    · obtain hflowing | hfull | hwoken | hover := hmoves
      · have hidle := (congrArg Request.flowing hout).symm.trans hstopped
        exact absurd (hidle.symm.trans hflowing) Bool.false_ne_true
      · exact .inl (hsane.limited ▸ hfull)
      · have hdrivers : 0 < f.drivers := by
          rw [hsane.drivers, hwoken]
          exact Nat.one_pos
        exact .inr (.inl ⟨hwoken, mem_tasks_of_drivers hl hdrivers⟩)
      · exact absurd (hb.empty_of_closed ((congrArg Request.closed hout).trans hover)).2 hqueued
    · exact .inr (.inr (mem_tasks_of_passes hl hpass))
    · exact absurd rfl hpasses
    · exact absurd rfl hdelivery
  · obtain ⟨hrows, hends⟩ := receive_ended hq hc hrun
    have hcompleted : f.channel.completed = true := by
      refine hends.elim id fun hheld => ?_
      have hstopped : f.channel.driver = .stopped := by
        have hheld := hsane.held.symm.trans ((congrArg Request.held hout).symm.trans hheld)
        simpa using hheld
      exact hsane.closed.symm.trans (hconnected.stopped hstopped)
    rw [Channel.isComplete, hcompleted, hrows]
    rfl
  · obtain ⟨hcompleted, hrows⟩ := (Bool.and_eq_true _ _).mp hcomplete
    have hover : q.closed = true := hclosed.trans hcompleted
    obtain ⟨hopened, hempty⟩ := hb.empty_of_closed hover
    have hreceived : received = (h.handed r).map Row.text := by
      rw [← handedIn_eq hl, ← hconnected.told, List.isEmpty_iff.mp hrows, List.append_nil]
    have hperm : ((h.handed r).map Row.id).Perm (h.issued r) := by
      have hplaces := hb.perm
      rwa [show (ledgerOf {} (h.view r) q).opened = [] from hopened,
        show (ledgerOf {} (h.view r) q).queued = [] from hempty] at hplaces
    have hcount : (h.view r).log.countP Event.isClose = 1 :=
      (hcourse.closes hq).calls.trans (by rw [hover]; rfl)
    obtain ⟨e, hmem, hclose⟩ := List.countP_pos_iff.mp (hcount ▸ Nat.one_pos)
    refine ⟨hreceived, hperm, hopened, hempty, ?_⟩
    cases e with
    | called r' call answer =>
      obtain rfl := eq_of_mem_log hmem rfl
      cases call with
      | close =>
        cases answer with
        | ok welcome => exact ⟨welcome, mem_journal_of_log hmem⟩
        | error e => exact absurd hmem (hsound _ _ e)
      | _ => cases hclose
    | _ => cases hclose

/-- Two rows of the late component's session were received, the third is queued, and the driver is on
its way to write it. -/
theorem stream_delivered_late :
    ∃ (received : List String) (h : Host Unit Unit) (q : Request Unit) (c : Channel),
      Streamed Late.user ⟨0⟩ 1 received h ∧ h.requests[0]? = some q ∧
      q.settings.sink = .channel c ∧ received.length = 2 ∧ q.queued ≠ [] ∧
      received = (h.handed ⟨0⟩).map Row.text ∧ c.driver = .woken ∧ .driver ⟨0⟩ ∈ h.tasks := by
  obtain ⟨received, h, q, c, hs, hq, hc, hp⟩ := exists_streamed Late.user rfl
    Late.streamResumed_spares
    (fun received h q c => decide (received.length = 2 ∧ c.rows = [] ∧ c.consumerGone = false ∧
      .started ⟨0⟩ ∈ h.journal ∧ q.queued.length = 1 ∧ h.tasks.any (Task.isPassOf ⟨0⟩) = false))
    (by decide +kernel :
      (playStream Late.user () Late.settings 1 Late.crowd Late.streamResumed 20).any _ = true)
  obtain ⟨hlength, hrows, hgone, hstarted, hqueue, hpasses⟩ := of_decide_eq_true hp
  have hqueued : q.queued ≠ [] := fun he => nomatch he ▸ hqueue
  obtain ⟨htold, hcount, hmoves, -, -⟩ := stream_delivered Late.user Late.user_spares
    (Nat.le_refl 1) hs hq hc hgone
  rw [hrows, List.append_nil] at htold
  refine ⟨received, h, q, c, hs, hq, hc, hlength, hqueued, htold, ?_⟩
  obtain hfull | hwoken | hpass := hmoves hstarted hqueued
  · rw [hcount, hrows] at hfull
    exact absurd hfull (Nat.not_succ_le_zero 0)
  · exact hwoken
  · exact absurd rfl (List.any_eq_false.mp hpasses _ hpass)

/-- However many rows are completed at once, and in whatever order tasks run and the consumer
receives, the channel never holds more than five rows above its limit, and counts them right. That
is so at every event as well: the rows that were handed over by then are at most five above the
limit more than the consumer has received before the task. -/
theorem stream_bounded (user : UserCode κ σ) (huser : user.Spares r) (hlimit : 1 ≤ limit)
    (hs : Streamed user r limit received h) (hq : h.requests[r.index]? = some q)
    (hc : q.settings.sink = .channel c) :
    c.rows.length ≤ limit + 5 ∧ c.buffered = c.rows.length ∧
    (c.consumerGone = false → ∀ later earlier, (h.view r).log = later ++ earlier →
      (Event.handedIn earlier).length ≤ received.length + (limit + 5)) := by
  obtain ⟨f, hl, hf, -, rfl⟩ := (hs.rests huser hlimit).exists_flow hq hc
  have hsane := hf.kept.sane
  have hbound : f.channel.rows.length ≤ limit + 5 := hsane.count ▸ hsane.bound
  refine ⟨hbound, hsane.count, fun hgone later earlier hlog => ?_⟩
  have htold := congrArg List.length (hf.kept.connected hgone).told
  have hhanded : h.handed r = Event.handedIn earlier ++ Event.handedIn later := by
    rw [handed, hlog]
    simp [Event.handedIn]
  rw [handedIn_eq hl, hhanded] at htold
  simp only [List.length_append, List.length_map] at htold
  omega

/-- A channel of a single row holds two of them: a value row that fills it and an error row. -/
theorem stream_bounded_late :
    ∃ (received : List String) (h : Host Unit Unit) (q : Request Unit) (c : Channel),
      Streamed Late.user ⟨0⟩ 1 received h ∧ h.requests[0]? = some q ∧
      q.settings.sink = .channel c ∧ c.buffered = 1 + 1 ∧ c.rows.length ≤ 1 + 5 := by
  obtain ⟨received, h, q, c, hs, hq, hc, hp⟩ := exists_streamed Late.user rfl
    Late.streamOpening_spares (fun _ _ _ c => decide (c.rows.length = 2))
    (by decide +kernel :
      (playStream Late.user () Late.settings 1 Late.crowd Late.streamOpening 20).any _ = true)
  obtain ⟨hbound, hcount, -⟩ := stream_bounded Late.user Late.user_spares (Nat.le_refl 1) hs hq hc
  exact ⟨received, h, q, c, hs, hq, hc, hcount.trans (of_decide_eq_true hp), hbound⟩

end Host
end TreeStream
