import TreeStream.Proofs.Framing
import TreeStream.Proofs.Standing

/-!
# Plain data from the model to the row

The work on plain data, started and run until nothing is queued, comes to an end if the destination
calls nobody back, and then the data is written. What the row holds, read as JSON, is the data, with
the same keys in the same order and the same numbers.
-/

namespace TreeStream

variable {κ σ : Type}

namespace Host

variable {v : Json} {user : UserCode κ σ} {r : RequestId} {h h' h₀ h₁ : Host κ σ} {m n : Nat}
  {q : Request κ} {settings : RequestSettings κ}

/-! ## Runs that come to an end -/

section

variable {guard : Option (Code κ)} {queue : List (Work κ)} {tasks : List (Task κ)}

theorem Guarded.update {f : Request κ → Request κ} (hf : ∀ q, (f q).settings = q.settings)
    (hJ : Guarded r guard queue tasks h) : Guarded r guard queue tasks (h.update r f) := by
  obtain ⟨hqueue, htasks, q, hq, hguard, hsink⟩ := hJ
  refine ⟨hqueue, htasks, f q, requests_update_self hq f, ?_⟩
  rw [hf]
  exact ⟨hguard, hsink⟩

variable (user) in
/-- A pass over a new request comes to an end if the destination makes no calls. -/
theorem exists_pass (hv : v.IsPlain) (hq : h.requests[r.index]? = some q)
    (hsegments : q.segments = #[Segment.ofJson v]) (hpinged : q.pinged = [⟨0⟩])
    (hrows : q.modelRows = []) (hopen : q.IsOpen v) (hJ : Guarded r guard queue tasks h)
    (hu : ∀ code, guard = some code → ∀ c, (user.destination code c).Makes fun _ => False)
    (hheight : v.height ≤ n) (hn : 2 ≤ n) :
    ∃ result h', pass user (perform user m) r n h = some (result, h') ∧
      Silent (Event.Resumes r) h h' ∧ Guarded r guard queue tasks h' := by
  obtain ⟨hqueue, htasks, q₀, hq₀, hguard, hsink⟩ := hJ
  cases hq.symm.trans hq₀
  have hbegun : ({ h with inPass := true }.tell
      (.began r (1 < q.running))).requests[r.index]? = some q := hq
  have hq₂ := requests_update_self hbegun fun req => { req with pinged := [] }
  obtain ⟨h₃, htried, hj₃, hq₃, hqueue₃, htasks₃⟩ :=
    run_retry user (m := m) (n := n) hv hq₂ hsegments
  rw [if_pos hheight] at htried
  have hJ₃ : Guarded r guard queue tasks h₃ :=
    ⟨hqueue₃.trans hqueue, htasks₃.trans htasks, _, hq₃, hguard, hsink⟩
  have htry : Silent (Event.Resumes r) h h₃ := ⟨[_, _, _, _], hj₃, by simp [Event.Resumes]⟩
  obtain ⟨result, h₄, hflush, hs, hJ₄⟩ : ∃ result h₄, (do
      if (← request r).flowing then flush user (perform user m) r n else pure (.ok ())
        : HostM κ σ (Except RenderError Unit)) h₃ = some (result, h₄) ∧
          Silent (Event.Resumes r) h₃ h₄ ∧ Guarded r guard queue tasks h₄ := by
    rw [run_bind, run_request hq₃, Option.bind_some]
    split
    · obtain ⟨result, h₄, hrun, ⟨events, hj₄, hquiet⟩, hJ₄⟩ := flush_ends (n := n)
        (answersAlone_guarded hu m) allowsFlush_guarded hq₃ hopen.flushing hopen.closed hJ₃
        fun kind => by
          cases kind
          · change (q.modelRows ++ [Row.ofJson v]).length < n
            rw [hrows]
            exact hn
          · change q.errorRows.length < n
            rw [hopen.errorRows]
            exact Nat.lt_of_lt_of_le Nat.two_pos hn
      refine ⟨result, h₄, hrun, ⟨events, hj₄, fun e he hresumes => hquiet e he ?_⟩, hJ₄⟩
      obtain ⟨nested, rfl⟩ := hresumes
      exact rfl
    · exact ⟨_, h₃, rfl, .of_eq rfl, hJ₃⟩
  refine ⟨result, { h₄ with inPass := h.inPass }, ?_, htry.trans hs, hJ₄⟩
  have hbatch : ([(⟨0⟩ : SegmentId)].forM fun s => retry user (perform user m) r s n)
      (({ h with inPass := true }.tell (.began r (1 < q.running))).update r
        fun req => { req with pinged := [] }) = some ((), h₃) := by
    change (retry user (perform user m) r ⟨0⟩ n _).bind _ = _
    rw [htried]
    rfl
  rw [run_pass hq, run_bind, takePinged, run_bind, run_request hbegun, Option.bind_some, run_bind,
    run_modifyRequest, Option.bind_some, run_pure, Option.bind_some, hpinged, run_bind, hbatch,
    Option.bind_some, hflush]
  rfl

variable (user) in
theorem exists_queuedPass (hv : v.IsPlain) (hq : h.requests[r.index]? = some q)
    (hsegments : q.segments = #[Segment.ofJson v]) (hpinged : q.pinged = [⟨0⟩])
    (hrows : q.modelRows = []) (hopen : q.IsOpen v) (hJ : Guarded r guard queue tasks h)
    (hu : ∀ code, guard = some code → ∀ c, (user.destination code c).Makes fun _ => False)
    (hheight : v.height ≤ n) (hn : 2 ≤ n) :
    ∃ h', queuedPass user (perform user m) r n h = some ((), h') ∧
      Silent (Event.Resumes r) h h' ∧ Guarded r guard queue tasks h' := by
  obtain ⟨result, h₁, hpass, hs, hJ₁⟩ := exists_pass user (m := m) hv
    (requests_update_self hq fun req => { req with running := req.running + 1 }) hsegments hpinged
    hrows ⟨hopen.work, hopen.errorRows, hopen.pending, hopen.closed, hopen.flushing⟩
    (hJ.update fun _ => rfl) hu hheight hn
  rw [queuedPass, running, run_bind, run_modifyRequest, Option.bind_some, run_bind, run_bind, hpass,
    Option.bind_some]
  cases result with
  | ok u => exact ⟨_, rfl, hs, hJ₁.update fun _ => rfl⟩
  | error e =>
    have hkept : Guarded r guard queue tasks
        (h₁.update r fun req => { req with fatal := some e }) :=
      hJ₁.update fun _ => rfl
    exact ⟨_, rfl, hs, hkept.update fun _ => rfl⟩

/-- Runs what is queued until nothing is. -/
def runIdle (user : UserCode κ σ) (n : Nat) : WorkQueue → HostM κ σ Unit
  | .manual => do
    let _ ← perform user n .runUntilIdle
    pure ()
  | .tasks => runTasks user n

variable (user) in
theorem run_startWork (hq : h.requests[r.index]? = some q) (hheld : q.held = true) :
    ∃ h₁, perform user (n + 1) (.startWork r) h = some (some (), h₁) ∧
      h₁.requests[r.index]? = some { q with running := q.running + 1 - 1, flowing := true } ∧
      h₁.journal = .scheduled r :: .started r :: h.journal ∧
      h₁.queue = h.queue ++ (if q.settings.queue = .manual then [.pass r] else []) ∧
      h₁.tasks = h.tasks ++ (if q.settings.queue = .tasks then [.pass r] else []) := by
  have hq₁ := requests_update_self hq fun req => { req with running := req.running + 1 }
  have hq₂ := requests_update_self hq₁ fun req => { req with flowing := true }
  obtain ⟨h₂, hh₂⟩ : ∃ h₂, ((h.update r fun req => { req with running := req.running + 1 }).update r
      fun req => { req with flowing := true }).tell (.started r) = h₂ := ⟨_, rfl⟩
  have hq₃ : h₂.requests[r.index]? =
      some { q with running := q.running + 1, flowing := true } := hh₂ ▸ hq₂
  have hstart : perform user (n + 1) (.startWork r) h =
      some (some (), ((h₂.tell (.scheduled r)).enqueue r q.settings.queue).update r
        fun req => { req with running := req.running - 1 }) := by
    have hanswer : perform user (n + 1) (.startWork r) = onHeld r (do
        modifyRequest r fun req => { req with flowing := true }
        record (.started r)
        schedulePass r : HostM κ σ Unit) := rfl
    rw [hanswer, onHeld, run_bind, run_get, Option.bind_some, hq]
    simp only [hheld, if_true]
    change (running r _ h).bind _ = _
    rw [running, run_bind, run_modifyRequest, Option.bind_some, run_bind, run_bind,
      run_modifyRequest, Option.bind_some, run_bind, run_record, Option.bind_some, hh₂,
      run_schedulePass hq₃]
    rfl
  refine ⟨_, hstart, ?_⟩
  have hq₄ : ((h₂.tell (.scheduled r)).enqueue r q.settings.queue).requests[r.index]? =
      some { q with running := q.running + 1, flowing := true } := by
    cases q.settings.queue <;> exact hq₃
  refine ⟨requests_update_self hq₄ _, ?_⟩
  subst hh₂
  cases q.settings.queue <;> simp [enqueue, Host.tell, Host.update]

/-- A queue whose only work is a pass that comes to an end is run until nothing is left. -/
theorem runIdle_queue (hqueue : h.queue = [.pass r])
    (hpass : queuedPass user (perform user (n + 1)) r (n + 1) { h with queue := [] } =
      some ((), h')) (hempty : h'.queue = []) :
    runIdle user (n + 3) .manual h = some ((), h') := by
  have hnext : perform user (n + 2) .runNext h = some (true, h') := by
    change (takeWork h).bind _ = _
    rw [takeWork, run_bind, run_get, Option.bind_some, hqueue]
    change (queuedPass user (perform user (n + 1)) r (n + 1) { h with queue := [] }).bind _ = _
    rw [hpass]
    rfl
  have hnone : perform user (n + 1) .runNext h' = some (false, h') := by
    change (takeWork h').bind _ = _
    rw [takeWork, run_bind, run_get, Option.bind_some, hempty]
    rfl
  have hrest : perform user (n + 2) .runUntilIdle h' = some ((0 : Nat), h') := by
    change (perform user (n + 1) .runNext h').bind _ = _
    rw [hnone]
    rfl
  have hall : perform user (n + 3) .runUntilIdle h = some ((1 : Nat), h') := by
    change (perform user (n + 2) .runNext h).bind _ = _
    rw [hnext]
    change (perform user (n + 2) .runUntilIdle h').bind _ = _
    rw [hrest]
    rfl
  rw [runIdle, run_bind, hall]
  rfl

theorem runIdle_tasks (htasks : h.tasks = [.pass r])
    (hpass : queuedPass user (perform user (n + 1)) r (n + 1) { h with tasks := [] } =
      some ((), h')) (hempty : h'.tasks = []) :
    runIdle user (n + 2) .tasks h = some ((), h') := by
  have hnone : runTasks user (n + 1) h' = some ((), h') := by
    rw [runTasks, run_bind, takeTask, run_bind, run_get, Option.bind_some, hempty]
    rfl
  rw [runIdle, runTasks, run_bind, takeTask, run_bind, run_get, Option.bind_some, htasks]
  change (queuedPass user (perform user (n + 1)) r (n + 1) { h with tasks := [] }).bind _ = _
  rw [hpass]
  exact hnone

/-- The pass that alone is queued for a new request over plain data is run, and nothing is queued
after it. -/
theorem exists_idle (hv : v.IsPlain) (hq : h.requests[r.index]? = some q)
    (hsegments : q.segments = #[Segment.ofJson v]) (hpinged : q.pinged = [⟨0⟩])
    (hrows : q.modelRows = []) (hopen : q.IsOpen v) (hsink : q.settings.sink.channel? = none)
    (hqueue : h.queue = if q.settings.queue = .manual then [.pass r] else [])
    (htasks : h.tasks = if q.settings.queue = .tasks then [.pass r] else [])
    (hu : ∀ code, q.settings.guard = some code → ∀ c,
      (user.destination code c).Makes fun _ => False) (hheight : v.height ≤ n) (hn : 2 ≤ n) :
    ∃ h', runIdle user (n + 4) q.settings.queue h = some ((), h') ∧
      Step user (fun _ => True) h h' ∧ Silent (Event.Resumes r) h h' ∧ h'.queue = [] ∧
      h'.tasks = [] := by
  cases hkind : q.settings.queue with
  | manual =>
    rw [hkind] at hqueue htasks
    obtain ⟨h', hpass, hs, hqueue', htasks', -⟩ :=
      exists_queuedPass user (h := { h with queue := [] }) (m := n + 2) (n := n + 2)
        hv hq hsegments hpinged hrows hopen ⟨rfl, htasks, q, hq, rfl, hsink⟩ hu
        (hheight.trans (Nat.le_add_right _ _)) (hn.trans (Nat.le_add_right _ _))
    have hidle := runIdle_queue (n := n + 1) hqueue hpass hqueue'
    have hasks : Script.Makes (fun _ => True)
        (.call .runUntilIdle fun _ => .done () : Script κ σ Unit) := ⟨trivial, fun _ _ => trivial⟩
    exact ⟨h', hidle, .script (n + 4) hasks hidle, hs, hqueue', htasks'⟩
  | tasks =>
    rw [hkind] at hqueue htasks
    obtain ⟨h', hpass, hs, hqueue', htasks', -⟩ :=
      exists_queuedPass user (h := { h with tasks := [] }) (m := n + 3) (n := n + 3)
        hv hq hsegments hpinged hrows hopen ⟨hqueue, rfl, q, hq, rfl, hsink⟩ hu
        (hheight.trans (Nat.le_add_right _ _)) (hn.trans (Nat.le_add_right _ _))
    exact ⟨h', runIdle_tasks (n := n + 2) htasks hpass htasks', .task (n + 3) htasks hpass, hs,
      hqueue', htasks'⟩

/-- The work on plain data that nothing else is queued beside, started and run until nothing is
queued, comes to an end if the destination makes no calls. -/
theorem exists_run (hv : v.IsPlain) (hr : Reachable user (fun _ => True) h₀)
    (hqueue : h₀.queue = []) (htasks : h₀.tasks = []) (hsink : settings.sink.channel? = none)
    (hu : ∀ code, settings.guard = some code → ∀ c,
      (user.destination code c).Makes fun _ => False)
    (hmade : newRequest settings (.ofJson v) h₀ = some (r, h₁)) (hn : v.height + 6 ≤ n) :
    ∃ h₂ h₃, perform user n (.startWork r) h₁ = some (some (), h₂) ∧
      runIdle user n settings.queue h₂ = some ((), h₃) ∧
      Relation.ReflTransGen (Step user fun _ => True) h₁ h₃ ∧ .started r ∈ h₃.journal ∧
      (∀ nested, .flowed r nested ∉ h₃.journal) ∧ ¬ h₃.HasPass r := by
  obtain ⟨hnone, hq, hj₁, hqueue₁, htasks₁⟩ := made_of_run hmade
  obtain ⟨n, rfl⟩ : ∃ m, n = m + 4 := ⟨n - 4, by omega⟩
  obtain ⟨h₂, hstart, hq₂, hj₂, hqueue₂, htasks₂⟩ :=
    run_startWork user (n := n + 3) hq rfl
  have hasks : Script.Makes (fun _ => True)
      (.call (.startWork r) fun _ => .done () : Script κ σ Unit) := ⟨trivial, fun _ _ => trivial⟩
  have hfirst : Step user (fun _ => True) h₁ h₂ :=
    .script (n + 4) hasks ((congrArg (Option.bind · _) hstart).trans rfl)
  rw [hqueue₁, hqueue, List.nil_append] at hqueue₂
  rw [htasks₁, htasks, List.nil_append] at htasks₂
  obtain ⟨h₃, hidle, hstep, ⟨events, hj₃, hquiet⟩, hqueue₃, htasks₃⟩ :=
    exists_idle (n := n) hv hq₂ rfl rfl rfl
      ⟨.inl ⟨rfl, rfl, List.cons_ne_nil _ _⟩, rfl, rfl, rfl, rfl⟩ hsink
      hqueue₂ htasks₂ hu (by omega) (by omega)
  rw [hj₂, hj₁] at hj₃
  refine ⟨h₂, h₃, hstart, hidle, .head hfirst (.single hstep), ?_, fun nested hmem => ?_, ?_⟩
  · rw [hj₃]
    simp
  · rw [hj₃] at hmem
    rcases List.mem_append.mp hmem with hmem | hmem
    · exact hquiet _ hmem ⟨nested, rfl⟩
    · have hmem₀ : .flowed r nested ∈ h₀.journal := by simpa using hmem
      exact ((hr.course_any r).asides hnone (mem_log_of_journal hmem₀ rfl)).elim
  · rintro (⟨work, hmem, -⟩ | ⟨task, hmem, -⟩)
    · exact nomatch hqueue₃ ▸ hmem
    · exact nomatch htasks₃ ▸ hmem

end

/-! ## Plain data survive -/

/-- For every JSON value whose objects have distinct keys and whose numbers are finite doubles there
is a text that holds the value: read as JSON, its keys are those of the value in the same order, its
strings are those of the value once the literals are read, and its numbers are the same doubles.

In whatever session, with whatever user code and settings, a request over the value is made. Once
its work was started and none of its passes is queued, it is closed and no row of it waits. Since it
was made it has got no id but that of the first row and has told no warning, and its destination was
asked for one batch, which wrote the first row with that text and no tag; only if the flow was
resumed were there batches without rows before. This is said of destinations that never fail, and as
long as the first pass has not begun within a resumption of the flow. If nothing else is queued and
the destination calls nobody back, then the work that is started and run until nothing is queued
comes to such an end. -/
theorem json_survives (user : UserCode κ σ) {v : Json} (hv : v.IsPlain) :
    ∃ j : Json, j.unescaped.Alike v ∧ RowTree.read? j.text = some (.ofJson j) ∧
      ∀ (settings : RequestSettings κ) (h₀ h₁ : Host κ σ) (r : RequestId),
        Reachable user (fun _ => True) h₀ → newRequest settings (.ofJson v) h₀ = some (r, h₁) →
        (∀ h, Relation.ReflTransGen (Step user fun _ => True) h₁ h → .started r ∈ h.journal →
          ¬ h.HasPass r → (∀ c e, .called r c (.error e) ∉ h.journal) →
          ¬ Event.Preempted r h.journal →
          HasDelivered r ⟨RowId.ofNat 0, .model, j.text⟩ h₀ h) ∧
        (h₀.queue = [] → h₀.tasks = [] → settings.sink.channel? = none →
          (∀ code, settings.guard = some code → ∀ c,
            (user.destination code c).Makes fun _ => False) →
          ∀ n, v.height + 6 ≤ n → ∃ h₂ h₃, perform user n (.startWork r) h₁ = some (some (), h₂) ∧
            runIdle user n settings.queue h₂ = some ((), h₃) ∧
            (∀ nested, .flowed r nested ∉ h₃.journal) ∧
            ((∀ c e, .called r c (.error e) ∉ h₃.journal) →
              HasDelivered r ⟨RowId.ofNat 0, .model, j.text⟩ h₀ h₃)) := by
  refine ⟨v.written, Json.written_alike hv, RowTree.read?_text _, ?_⟩
  intro settings h₀ h₁ r hr hmade
  refine ⟨fun h hsteps hstarted hidle hsound hfirst =>
    over_of_steps hv hr hmade hsteps hsound hfirst hstarted hidle, ?_⟩
  intro hqueue htasks hsink hu n hn
  obtain ⟨h₂, h₃, hstart, hrun, hsteps, hstarted, hflowed, hidle⟩ :=
    exists_run hv hr hqueue htasks hsink hu hmade hn
  refine ⟨h₂, h₃, hstart, hrun, hflowed, fun hsound =>
    over_of_steps hv hr hmade hsteps hsound ?_ hstarted hidle⟩
  rintro ⟨later, earlier, hj, hresumed, -⟩
  exact hflowed false (by simp [hj, hresumed])

/-- Keys and strings that begin as references do, and an integer that is no double. -/
def lookalikes : Json :=
  .object [("$1", .array [.string "$2", .string "@3"]),
    ("n", .number (.int 9223372036854775807))]

def resuming : Script Unit Unit Unit :=
  .call (.startFlowing ⟨0⟩) fun _ => .call (.startWork ⟨0⟩) fun _ =>
    .call .runUntilIdle fun _ => .done ()

theorem resuming_makes : resuming.Makes fun _ => True :=
  ⟨trivial, fun _ _ => ⟨trivial, fun _ _ => ⟨trivial, fun _ _ => trivial⟩⟩⟩

theorem json_survives_lookalikes :
    ∃ (j : Json) (h h' : Host Unit Unit), j.unescaped.Alike lookalikes ∧
      HasDelivered ⟨0⟩ ⟨RowId.ofNat 0, .model, j.text⟩ (fresh () #[]) h ∧
      .flowed ⟨0⟩ false ∈ h'.journal ∧
      HasDelivered ⟨0⟩ ⟨RowId.ofNat 0, .model, j.text⟩ (fresh () #[]) h' := by
  have hfinite : (JsonNumber.int 9223372036854775807).toDouble.isFinite = true := by
    decide +kernel
  have hv : lookalikes.IsPlain := ⟨by decide, ⟨trivial, trivial, trivial⟩, hfinite, trivial⟩
  obtain ⟨h₁, hmade⟩ : ∃ h₁, newRequest (σ := Unit) Late.settings (.ofJson lookalikes)
      (fresh () #[]) = some (⟨0⟩, h₁) := ⟨_, rfl⟩
  obtain ⟨j, halike, -, hall⟩ := json_survives Late.user hv
  obtain ⟨hsteps, hrun⟩ := hall Late.settings (fresh () #[]) h₁ ⟨0⟩ ⟨(), #[], .refl⟩ hmade
  obtain ⟨h₂, h₃, hstart, hidle, -, hdelivered⟩ := hrun rfl rfl rfl nofun 20 (by decide)
  have hplay : ((newRequest Late.settings (.ofJson lookalikes) (fresh () #[])).bind fun made =>
      (perform Late.user 20 (.startWork ⟨0⟩) made.2).bind fun started =>
        runIdle Late.user 20 .manual started.2).any (fun ended =>
          ended.2.journal.all fun e => !e.isFailure) = true := by
    decide +kernel
  rw [hmade, Option.bind_some, hstart, Option.bind_some] at hplay
  rw [show runIdle Late.user 20 .manual h₂ = some ((), h₃) from hidle] at hplay
  have hresumed : ((newRequest Late.settings (.ofJson lookalikes) (fresh () #[])).bind fun made =>
      resuming.run (perform Late.user 20) made.2).any (fun ended => decide
        (.flowed ⟨0⟩ false ∈ ended.2.journal ∧ .started ⟨0⟩ ∈ ended.2.journal ∧
          ¬ ended.2.HasPass ⟨0⟩ ∧ (ended.2.journal.all fun e => !e.isFailure) = true ∧
          ended.2.Unnested ⟨0⟩)) = true := by
    decide +kernel
  rw [hmade, Option.bind_some] at hresumed
  obtain ⟨⟨u, h'⟩, hscript, hend⟩ := (Option.any_eq_true _ _).mp hresumed
  obtain ⟨hflowed, hstarted, hnone, hsound, hu⟩ := of_decide_eq_true hend
  refine ⟨j, h₃, h', halike, hdelivered fun c e hmem =>
    absurd (List.all_eq_true.mp hplay _ hmem) Bool.false_ne_true, hflowed,
    hsteps h' (.single (.script 20 resuming_makes hscript)) hstarted hnone (fun c e hmem =>
      absurd (List.all_eq_true.mp hsound _ hmem) Bool.false_ne_true) ?_⟩
  rintro ⟨later, earlier, hj, -, -⟩
  exact hu (by simp [hj])

end Host
end TreeStream
