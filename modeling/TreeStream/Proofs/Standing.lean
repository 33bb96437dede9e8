import TreeStream.Proofs.EmptyFlushes
import TreeStream.Proofs.Rounds

/-!
# Where a request over plain data stands

Its one segment is tried by the first pass that begins, which asks user code for nothing. If the
flow is on by then, the pass writes the row and closes the destination; otherwise a later pass does,
and one is queued for every start. To resume the flow writes the row if it waits, and asks for an
empty batch if it does not, unless a pass begins meanwhile. So a request whose work was started and
that has no pass left has written the data, unless its destination has failed or its first pass has
begun while the flow was being resumed.
-/

namespace TreeStream

variable {κ σ : Type}

/-! ## Every start is followed by a pass -/

/-- The work was started, and no pass has begun since. -/
def Event.awaitedIn : List Event → Bool
  | [] => false
  | .started _ :: _ => true
  | .began _ _ :: _ => false
  | _ :: log => awaitedIn log

theorem Event.awaitedIn_append {r : RequestId} {events log : List Event}
    (hquiet : ∀ e ∈ events, ¬ e.Begins r)
    (h : .started r ∈ events ∨ awaitedIn (log.filter (isOf r)) = true) :
    awaitedIn ((events ++ log).filter (isOf r)) = true := by
  induction events with
  | nil => exact h.resolve_left (List.not_mem_nil)
  | cons e events ih =>
    rw [List.cons_append, List.filter_cons]
    by_cases hstarted : e = .started r
    · subst hstarted
      simp [isOf, Event.request?, awaitedIn]
    have ih := ih (fun e' he => hquiet e' (List.mem_cons_of_mem e he))
      (h.imp_left fun hmem => (List.mem_cons.mp hmem).resolve_left (Ne.symm hstarted))
    split
    · rename_i hof
      have hof : e.request? = some r := of_decide_eq_true hof
      cases e with
      | started r' => exact absurd (congrArg Event.started (Option.some.inj hof)) hstarted
      | began r' nested =>
        obtain rfl : r' = r := Option.some.inj hof
        exact absurd ⟨nested, rfl⟩ (hquiet _ List.mem_cons_self)
      | _ => exact ih
    · exact ih

theorem Event.IsAside.awaitedIn {e : Event} (h : e.IsAside) (log : List Event) :
    Event.awaitedIn (e :: log) = Event.awaitedIn log := by
  cases e <;> first | rfl | exact h.elim

/-- A start that no pass has answered has one coming. -/
def Awaited (g : Hand κ) (v : View κ) : Prop := Event.awaitedIn v.log = true → 0 < v.passes + g.due

section

variable {W : World κ} {r : RequestId} {g g' : Hand κ} {v v' : View κ} {q q' : Request κ}

theorem Turn.awaited (ht : Turn W r g v g' v') (ih : Awaited g v) : Awaited g' v' := by
  cases ht with
  | ambient h =>
    cases h with
    | create => exact fun hw => ih hw
    | say e he => exact fun hw => ih (he.awaitedIn v.log ▸ hw)
    | _ => exact ih
  | visit h =>
    cases h with
    | pop | ask => exact fun _ => Nat.add_pos_right _ (Nat.succ_pos _)
    | start | firstPing => exact fun _ => Nat.add_pos_left (Nat.succ_pos _) _
    | _ => exact ih
  | flushing h =>
    cases h with
    | openOwn => exact fun hw => ih hw
    | _ => exact ih
  | working h =>
    cases h with
    | begin => exact fun hw => nomatch hw
    | _ => exact ih

theorem Course.awaited (h : Course W r g v) : Awaited g v := by
  induction h with
  | start => exact fun hw => nomatch hw
  | turn _ ht ih => exact ht.awaited ih

end

namespace Host

/-- In every state that a session reaches, a pass is queued if the work was started since the last
one began. -/
theorem Reachable.awaited {user : UserCode κ σ} {h : Host κ σ}
    (hr : Reachable user (fun _ => True) h) {r : RequestId}
    (hw : Event.awaitedIn (h.view r).log = true) : h.HasPass r :=
  hasPass_of_passes ((hr.course_any r).awaited hw)

end Host

/-! ## Trying plain data -/

section

variable (v : Json)

def Segment.ofJson : Segment κ := { id := RowId.ofNat 0, query := .model (.ofJson v) }

def Row.ofJson : Row := Row.ofModel (RowId.ofNat 0) v.written.text

def Request.tried (q : Request κ) : Request κ :=
  { q with
    segments := #[{ Segment.ofJson v with completed := true }]
    modelRows := q.modelRows ++ [Row.ofJson v] }

namespace Host

variable {v} {user : UserCode κ σ} {r : RequestId} {h h' : Host κ σ} {m n : Nat} {q : Request κ}

/-- The serializer does nothing but to write plain data. -/
theorem run_finish (hv : v.IsPlain) (hq : h.requests[r.index]? = some q) (s : SegmentId) :
    finish user (perform user m) r s n (.ofJson v) h =
      if v.height ≤ n then completeSegment r s v.written.text h else none := by
  rw [finish, run_bind, run_request hq, Option.bind_some, run_bind,
    Serializer.serialize_perform absorbs_hostM n, Serializer.serialize_ofJson hv]
  by_cases hn : v.height ≤ n
  · rw [Serializer.direct_of hn, if_pos hn]
    rfl
  · rw [Serializer.direct_of_not hn, if_neg hn]
    rfl

/-- The segment of a new request over plain data, when its text is there. -/
theorem run_completeSegment (hq : h.requests[r.index]? = some q)
    (hsegments : q.segments = #[Segment.ofJson v]) :
    ∃ h₁, completeSegment r ⟨0⟩ v.written.text h = some ((), h₁) ∧
      h₁.journal = .completed r (Row.ofJson v) :: h.journal ∧
      h₁.requests[r.index]? = some (q.tried v) ∧ h₁.queue = h.queue ∧ h₁.tasks = h.tasks := by
  have hmodify : q.segments.modify 0 (fun seg => { seg with completed := true }) =
      #[{ Segment.ofJson v with completed := true }] := by
    rw [hsegments]
    rfl
  have hq₁ := requests_update_self hq fun req =>
    { req with segments := req.segments.modify 0 fun seg => { seg with completed := true } }
  have hq₂ := requests_update_self hq₁ fun req =>
    { req with modelRows := req.modelRows ++ [Row.ofJson v] }
  simp only [completeSegment, run_bind, run_modifySegment, segment, run_request hq₁,
    Option.bind_some, run_modifyRequest, run_record]
  simp only [hmodify] at hq₁ hq₂ ⊢
  exact ⟨_, rfl, rfl, hq₂, rfl, rfl⟩

variable (user) in
/-- Trying the segment of a new request over plain data completes it, if the bound is high
enough. -/
theorem run_tryOpen (hv : v.IsPlain) (hq : h.requests[r.index]? = some q)
    (hsegments : q.segments = #[Segment.ofJson v]) :
    ∃ h₁, tryOpen user (perform user m) r ⟨0⟩ n h =
        (if v.height ≤ n then some ((), h₁) else none) ∧
      h₁.journal = .completed r (Row.ofJson v) :: h.journal ∧
      h₁.requests[r.index]? = some (q.tried v) ∧ h₁.queue = h.queue ∧ h₁.tasks = h.tasks := by
  obtain ⟨h₁, hcomplete, hrest⟩ := run_completeSegment hq hsegments
  refine ⟨h₁, ?_, hrest⟩
  have hadvance : ∀ n, advance user (perform user m) r ⟨0⟩ (n + 1) (.ofJson v) =
      pure (some (.ofJson v)) := by
    intro n
    cases v <;> rfl
  have hseg : segment r ⟨0⟩ h = some (Segment.ofJson v, h) := by
    rw [segment, run_bind, run_request hq, Option.bind_some]
    simp only [hsegments]
    rfl
  have htry : tryOpen user (perform user m) r ⟨0⟩ n h =
      (advance user (perform user m) r ⟨0⟩ n (.ofJson v) h).bind fun p =>
        p.1.elim (pure ()) (finish user (perform user m) r ⟨0⟩ n) p.2 := by
    rw [tryOpen, run_bind, hseg, Option.bind_some]
    change trySegment user (perform user m) r ⟨0⟩ n h = _
    rw [trySegment, run_bind, hseg, Option.bind_some]
    refine congrArg (Option.bind _) (funext fun p => ?_)
    obtain ⟨reached, h₂⟩ := p
    cases reached <;> rfl
  cases n with
  | zero =>
    have hheight : ¬ v.height ≤ 0 := by cases v <;> simp [Json.height]
    rw [htry, if_neg hheight]
    rfl
  | succ n =>
    rw [htry, hadvance, run_pure, Option.bind_some]
    exact (run_finish hv hq ⟨0⟩).trans (by rw [hcomplete])

variable (user) in
theorem run_retry (hv : v.IsPlain) (hq : h.requests[r.index]? = some q)
    (hsegments : q.segments = #[Segment.ofJson v]) :
    ∃ h₁, retry user (perform user m) r ⟨0⟩ n h =
        (if v.height ≤ n then some ((), h₁) else none) ∧
      h₁.journal =
        .left r ⟨0⟩ :: .completed r (Row.ofJson v) :: .retried r ⟨0⟩ :: h.journal ∧
      h₁.requests[r.index]? = some (q.tried v) ∧ h₁.queue = h.queue ∧ h₁.tasks = h.tasks := by
  obtain ⟨h₁, htry, hj, hrest⟩ :=
    run_tryOpen user (h := h.tell (.retried r ⟨0⟩)) (m := m) (n := n) hv hq hsegments
  refine ⟨h₁.tell (.left r ⟨0⟩), ?_, congrArg _ hj, hrest⟩
  rw [retry, run_bind, run_record, Option.bind_some, run_bind, htry]
  split <;> rfl

end Host

/-! ## Before and after -/

namespace Event

def Resumes (r : RequestId) (e : Event) : Prop := ∃ nested, e = .flowed r nested

/-- The first pass of the request began within another call on it, after its flow was resumed. -/
def Preempted (r : RequestId) (log : List Event) : Prop :=
  ∃ later earlier, log = later ++ .began r true :: earlier ∧ .flowed r false ∈ earlier ∧
    ∀ e ∈ earlier, ¬ e.Begins r

/-- The destination has failed, or a resumption of the flow was cut across by the first pass. -/
def Spoilt (r : RequestId) (log : List Event) : Prop :=
  (∃ e ∈ log, e.Fails r) ∨ Preempted r log

theorem Spoilt.append {r : RequestId} {log : List Event} (h : Spoilt r log) (events : List Event) :
    Spoilt r (events ++ log) := by
  rcases h with ⟨e, he, hf⟩ | ⟨later, earlier, rfl, hflowed, hfirst⟩
  · exact .inl ⟨e, List.mem_append_right _ he, hf⟩
  · exact .inr ⟨events ++ later, earlier, (List.append_assoc ..).symm, hflowed, hfirst⟩

/-- Batches without a row, which are asked for only if the flow is resumed. -/
structure Empties (r : RequestId) (log empties : List Event) : Prop where
  empty : AreEmpty r empties
  resumed : empties ≠ [] → .flowed r false ∈ log

theorem Empties.mono {r : RequestId} {log log' empties : List Event} (h : Empties r log empties)
    (hsub : log ⊆ log') : Empties r log' empties :=
  ⟨h.empty, fun hne => hsub (h.resumed hne)⟩

end Event

/-- A request over plain data of which nothing is written: its segment is still to be tried, or its
row waits. -/
structure Request.IsOpen (v : Json) (q : Request κ) : Prop where
  work : (q.segments = #[Segment.ofJson v] ∧ q.modelRows = [] ∧ q.pinged ≠ []) ∨
    (∀ seg ∈ q.segments, seg.completed = true) ∧ q.modelRows = [Row.ofJson v]
  errorRows : q.errorRows = []
  pending : q.pending = 1
  closed : q.closed = false
  flushing : q.flushing = false

theorem Request.IsOpen.ofJson {v : Json} {settings : RequestSettings κ} :
    (Request.ofModel settings (.ofJson v)).IsOpen v :=
  ⟨.inl ⟨rfl, rfl, List.cons_ne_nil _ _⟩, rfl, rfl, rfl, rfl⟩

structure Request.IsOver (q : Request κ) : Prop where
  segments : ∀ seg ∈ q.segments, seg.completed = true
  closed : q.closed = true
  pending : q.pending = 0
  rows : ∀ kind, q.rows kind = []

/-- What is put out for one row: its id, these batches, and the batch after which the destination is
closed. -/
def Event.IsDelivery (r : RequestId) (row : Row) (empties log : List Event) : Prop :=
  ∃ begun written completed flushed closed, log =
    [.called r .close (.ok closed), .called r .flush (.ok flushed),
      .called r .complete (.ok completed), .called r (.write row) (.ok written),
      .called r .begin (.ok begun)] ++ empties ++ [.issued r row.id]

theorem Request.IsOver.done {q : Request κ} (hq : q.IsOver) : q.IsDone :=
  ⟨hq.segments, .inr hq.closed⟩

theorem Request.SameOutput.over {q q' : Request κ} (hs : q.SameOutput q') (hq : q.IsOver) :
    q'.IsOver :=
  ⟨hs.segments ▸ hq.segments, hs.closed.trans hq.closed, hs.pending.trans hq.pending,
    fun kind => (hs.rows kind).trans (hq.rows kind)⟩

theorem Request.StaysOpen.isOpen {v : Json} {q q' : Request κ} (hs : q.StaysOpen q')
    (hq : q.IsOpen v) : q'.IsOpen v := by
  refine ⟨hq.work.imp ?_ ?_, (hs.rows .error).trans hq.errorRows, hs.pending.trans hq.pending,
    hs.closed.trans hq.closed, hs.flushing.trans hq.flushing⟩
  · rintro ⟨hsegments, hrows, hpinged⟩
    exact ⟨hs.segments.trans hsegments, (hs.rows .model).trans hrows, hs.pinged hpinged⟩
  · rintro ⟨hcompleted, hrows⟩
    exact ⟨hs.segments ▸ hcompleted, (hs.rows .model).trans hrows⟩

namespace Host

variable {v : Json} {past : List Event} {user : UserCode κ σ} {r : RequestId} {h h' h₁ : Host κ σ}
  {m n : Nat} {q q' : Request κ}

/-- Where a request over plain data stands that was made when this had been put out. -/
inductive Stands (v : Json) (past : List Event) (r : RequestId) (h : Host κ σ) (q : Request κ) :
    Prop
  | spoilt (hs : Event.Spoilt r h.journal)
  | waiting {empties : List Event} (hq : q.IsOpen v) (hempty : Event.Empties r h.journal empties)
    (hout : h.outputs r = empties ++ .issued r (RowId.ofNat 0) :: past)
    (hbegun : (∃ e ∈ h.journal, e.Begins r) → ∀ seg ∈ q.segments, seg.completed = true)
    (hstarted : .started r ∈ h.journal →
      q.flowing = true ∧ Event.awaitedIn (h.view r).log = true)
  | ended {empties log : List Event} (hq : q.IsOver) (hempty : Event.Empties r h.journal empties)
    (hlog : Event.IsDelivery r (Row.ofJson v) empties log) (hout : h.outputs r = log ++ past)

/-- Wherever the request stands, it stands somewhere afterwards. -/
def Advances (v : Json) (past : List Event) (r : RequestId) (h h' : Host κ σ) : Prop :=
  ∀ q, h.requests[r.index]? = some q → Stands v past r h q →
    ∃ q', h'.requests[r.index]? = some q' ∧ Stands v past r h' q'

theorem Stands.move (hst : Stands v past r h q) (hout : Silent (Kept.output (κ := κ) r).tells h h')
    (hbegins : Silent (Event.Begins r) h h') (hs : q.StaysOpen q')
    (hstart : Silent (· = .started r) h h' ∨ q'.flowing = true) : Stands v past r h' q' := by
  have houtputs := outputs_of_silent hout
  obtain ⟨events, hj, hquiet⟩ := hbegins
  have hsub : h.journal ⊆ h'.journal := hj ▸ List.subset_append_right events _
  cases hst with
  | spoilt hspoilt => exact .spoilt (hj ▸ hspoilt.append events)
  | ended hq hempty hlog ho =>
    exact .ended (hs.toSameOutput.over hq) (hempty.mono hsub) hlog (houtputs.trans ho)
  | waiting hq hempty ho hbegun hstarted =>
    refine .waiting (hs.isOpen hq) (hempty.mono hsub) (houtputs.trans ho) ?_ fun hmem => ⟨?_, ?_⟩
    · rintro ⟨e, he, hb⟩
      rw [hj] at he
      rw [hs.segments]
      exact hbegun ⟨e, (List.mem_append.mp he).resolve_left fun he => hquiet e he hb, hb⟩
    · rcases hstart with ⟨events', hj', hunstarted⟩ | hflowing
      · rw [hj'] at hmem
        refine hs.flowing (hstarted ((List.mem_append.mp hmem).resolve_left fun hmem => ?_)).1
        exact hunstarted _ hmem rfl
      · exact hflowing
    · change Event.awaitedIn (h'.journal.filter (Event.isOf r)) = true
      rw [hj] at hmem ⊢
      exact Event.awaitedIn_append hquiet
        ((List.mem_append.mp hmem).imp_right fun hmem => (hstarted hmem).2)

theorem Stands.tell (hst : Stands v past r h q) {e : Event} (hout : e.isOutput r = false)
    (hbegins : ¬ e.Begins r) (hstart : e ≠ .started r ∨ q.flowing = true) :
    Stands v past r (h.tell e) q :=
  hst.move (.tell (by simp [Kept.output, hout])) (.tell hbegins) (.refl q)
    (hstart.imp_left Silent.tell)

/-- Another state of the request, with the same journal. -/
theorem Stands.same (hst : Stands v past r h q) (hj : h'.journal = h.journal)
    (hs : q.StaysOpen q') : Stands v past r h' q' :=
  hst.move (.of_eq hj) (.of_eq hj) hs (.inl (.of_eq hj))

theorem Stands.flow (hst : Stands v past r h q) :
    Stands v past r (h.update r fun req => { req with flowing := true })
      { q with flowing := true } :=
  hst.same rfl ⟨.of_eq rfl rfl rfl rfl rfl rfl, id, fun _ => rfl⟩

theorem surrounds_advances (v : Json) (past : List Event) (r : RequestId) :
    Surrounds r (Advances (κ := κ) (σ := σ) v past r) where
  refl h q hq hst := ⟨q, hq, hst⟩
  trans h₁₂ h₂₃ q hq hst := by
    obtain ⟨q', hq', hst'⟩ := h₁₂ q hq hst
    exact h₂₃ q' hq' hst'
  same hreq hj q hq hst := ⟨q, hreq.trans hq, hst.same hj (.refl q)⟩
  tell h e he q hq hst := by
    refine ⟨q, hq, hst.tell he.isOutput he.not_begins (.inl ?_)⟩
    rintro rfl
    exact he rfl
  adjust h f hf q hq hst := ⟨f q, requests_update_self hq f, hst.same rfl (hf.staysOpen q)⟩

theorem advances_running (h : Host κ σ) (f : Nat → Nat) :
    Advances v past r h (h.update r fun req => { req with running := f req.running }) :=
  fun _ hq hst => ⟨_, requests_update_self hq _,
    hst.same rfl (.of_output (.of_eq rfl rfl rfl rfl rfl rfl) rfl rfl)⟩

theorem advances_start (h : Host κ σ) :
    Advances v past r h
      ((h.update r fun req => { req with flowing := true }).tell (.started r)) :=
  fun _ hq hst => ⟨_, requests_update_self hq _, hst.flow.tell rfl nofun (.inr rfl)⟩

theorem segment_of_retry {s : SegmentId} {a : Unit} (hq : h.requests[r.index]? = some q)
    (hrun : retry user (perform user m) r s n h = some (a, h')) :
    ∃ seg, q.segments[s.index]? = some seg := by
  have hq' : (h.tell (.retried r s)).requests[r.index]? = some q := hq
  rw [retry, run_bind, run_record, Option.bind_some, tryOpen, bind_assoc, run_bind] at hrun
  obtain ⟨⟨seg, h₁⟩, hseg, -⟩ := Option.bind_eq_some_iff.mp hrun
  obtain ⟨q', hq'', hs, -⟩ := segment_of_run hseg
  cases hq'.symm.trans hq''
  exact ⟨seg, hs⟩

/-- The segments of a batch are tried: the row is there afterwards, if it was or any are tried. -/
theorem tryBatch_open {batch : List SegmentId} {a : Unit} (hv : v.IsPlain)
    (hq : h.requests[r.index]? = some q)
    (hwork : (q.segments = #[Segment.ofJson v] ∧ q.modelRows = [] ∧ batch ≠ []) ∨
      (∀ seg ∈ q.segments, seg.completed = true) ∧ q.modelRows = [Row.ofJson v])
    (hrun : (batch.forM fun s => retry user (perform user m) r s n) h = some (a, h')) :
    ∃ segments, (∀ seg ∈ segments, seg.completed = true) ∧
      h'.requests[r.index]? =
        some { q with segments := segments, modelRows := [Row.ofJson v] } ∧
      Silent (fun e => e.isOutput r = true ∨ e = .started r) h h' := by
  induction batch generalizing h q with
  | nil =>
    obtain ⟨hcompleted, hrows⟩ := hwork.resolve_left fun h => h.2.2 rfl
    cases hrun
    refine ⟨q.segments, hcompleted, ?_, .of_eq rfl⟩
    rw [← hrows]
    exact hq
  | cons s batch ih =>
    obtain ⟨⟨u, h₁⟩, hretry, hrest⟩ := Option.bind_eq_some_iff.mp hrun
    have hretried : Silent (fun e => e.isOutput r = true ∨ e = .started r) h
        ((h.tell (.retried r s)).tell (.left r s)) :=
      .trans (.tell (by simp [Event.isOutput])) (.tell (by simp [Event.isOutput]))
    rcases hwork with ⟨hsegments, hrows, -⟩ | ⟨hcompleted, hrows⟩
    · obtain ⟨seg, hseg⟩ := segment_of_retry hq hretry
      obtain ⟨hlt, -⟩ := Array.getElem?_eq_some_iff.mp hseg
      obtain rfl : s = ⟨0⟩ := by
        rw [hsegments] at hlt
        exact congrArg SegmentId.mk (Nat.lt_one_iff.mp hlt)
      obtain ⟨h₂, htried, hj, hq₂, -, -⟩ :=
        run_retry user (m := m) (n := n) hv hq hsegments
      obtain ⟨-, heq⟩ := Option.ite_none_right_eq_some.mp (htried.symm.trans hretry)
      cases heq
      have hcompleted : ∀ seg ∈ (q.tried v).segments, seg.completed = true := by
        intro seg hmem
        rw [Array.mem_singleton.mp hmem]
      have hrows' : (q.tried v).modelRows = [Row.ofJson v] := by
        change q.modelRows ++ [Row.ofJson v] = _
        rw [hrows]
        rfl
      obtain ⟨segments, hall, hq', hsilent⟩ := ih hq₂ (.inr ⟨hcompleted, hrows'⟩) hrest
      refine ⟨segments, hall, hq', Silent.trans ⟨[_, _, _], hj, ?_⟩ hsilent⟩
      simp [Event.isOutput]
    · obtain rfl := retry_completed hq hcompleted hretry
      obtain ⟨segments, hall, hq', hsilent⟩ :=
        ih (h := (h.tell (.retried r s)).tell (.left r s)) hq (.inr ⟨hcompleted, hrows⟩) hrest
      exact ⟨segments, hall, hq', hretried.trans hsilent⟩

/-- What leaves a request that is over alone leaves it over. -/
theorem exists_ended {empties log : List Event} (hkept : Keeps (Kept.output r) h h')
    (hq : h.requests[r.index]? = some q) (hsub : h.journal ⊆ h'.journal) (hover : q.IsOver)
    (hempty : Event.Empties r h.journal empties)
    (hlog : Event.IsDelivery r (Row.ofJson v) empties log) (hout : h.outputs r = log ++ past) :
    ∃ q', h'.requests[r.index]? = some q' ∧ Stands v past r h' q' := by
  obtain ⟨hsilent, q', hq', hsame⟩ := hkept q hq hover.done
  exact ⟨q', hq', .ended (hsame.over hover) (hempty.mono hsub) hlog
    ((outputs_of_silent hsilent).trans hout)⟩

/-- A pass over data that wait writes them if they flow; if not, their row waits. -/
theorem pass_open {result : Except RenderError Unit} (hv : v.IsPlain)
    (hq : h.requests[r.index]? = some q) (hopen : q.IsOpen v)
    (hrun : pass user (perform user m) r n h = some (result, h'))
    (hsound : ∀ e ∈ h'.journal, ¬ e.Fails r) :
    ∃ q', h'.requests[r.index]? = some q' ∧
      ((q.flowing = false ∧ q'.IsOpen v ∧ (∀ seg ∈ q'.segments, seg.completed = true) ∧
        h'.outputs r = h.outputs r ∧ (.started r ∈ h'.journal → .started r ∈ h.journal)) ∨
      (q.flowing = true ∧ q'.IsOver ∧ ∃ begun written completed flushed closed, h'.outputs r =
        [.called r .close (.ok closed), .called r .flush (.ok flushed),
          .called r .complete (.ok completed), .called r (.write (Row.ofJson v)) (.ok written),
          .called r .begin (.ok begun)] ++ h.outputs r)) := by
  have F : Frames user r Extends := frames_extends user r
  obtain ⟨q₀, h₁, hq₀, htry, rfl⟩ := pass_of_run hrun
  cases hq.symm.trans hq₀
  obtain ⟨⟨batch, h₂⟩, htake, hrest⟩ := Option.bind_eq_some_iff.mp htry
  have hbegun : ({ h with inPass := true }.tell
      (.began r (1 < q.running))).requests[r.index]? = some q := hq
  rw [takePinged, run_bind, run_request hbegun, Option.bind_some, run_bind, run_modifyRequest,
    Option.bind_some, run_pure] at htake
  cases htake
  obtain ⟨⟨u, h₃⟩, hbatch, hrest⟩ := Option.bind_eq_some_iff.mp hrest
  obtain ⟨segments, hcompleted, hq₃, events, hj, hquiet⟩ :=
    tryBatch_open hv (requests_update_self hbegun _) hopen.work hbatch
  obtain ⟨⟨q₄, h₄⟩, hreq, hrest⟩ := Option.bind_eq_some_iff.mp hrest
  obtain ⟨hq₄, rfl⟩ := request_of_run hreq
  cases hq₃.symm.trans hq₄
  have hout₃ : h₄.outputs r = h.outputs r := by
    have hbegan : ({ h with inPass := true }.tell (.began r (1 < q.running))).outputs r =
        h.outputs r := by
      simp [outputs, tell, Event.isOutput]
    rw [← hbegan]
    exact outputs_of_silent ⟨events, hj, fun e he ho => hquiet e he (.inl ho)⟩
  cases hflowing : q.flowing with
  | false =>
    simp only [hflowing, Bool.false_eq_true, if_false] at hrest
    cases hrest
    refine ⟨_, hq₃, .inl ⟨rfl, ⟨.inr ⟨hcompleted, rfl⟩, hopen.errorRows, hopen.pending,
      hopen.closed, hopen.flushing⟩, hcompleted, hout₃, fun hmem => ?_⟩⟩
    rcases List.mem_append.mp (hj ▸ hmem) with hmem | hmem
    · exact absurd (.inr rfl) (hquiet _ hmem)
    · exact (List.mem_cons.mp hmem).resolve_left (by simp)
  | true =>
    simp only [hflowing, if_true] at hrest
    obtain ⟨later, hlater⟩ := F.flush (F.perform m) (respectsFlush_extends r) n hrest
    have hs : Silent (Event.Fails r) h₄ h₁ :=
      ⟨later, hlater.symm, fun e he => hsound e (hlater ▸ List.mem_append_left _ he)⟩
    obtain ⟨-, begun, written, completed, flushed, closed, q', hout', hq', hdone, hclosed, hnone,
      hrows⟩ := flush_one hq₃ hcompleted rfl hopen.errorRows hopen.pending hopen.flushing
        hopen.closed hrest hs
    rw [hout₃] at hout'
    exact ⟨q', hq', .inr ⟨rfl, ⟨hdone.segments, hclosed, hnone, hrows⟩, begun, written, completed,
      flushed, closed, hout'⟩⟩

/-- A pass tries the data if they wait to be tried, and writes them if they flow. -/
theorem advances_pass (hv : v.IsPlain) :
    Respects (Advances v past r) (pass user (perform user m) r n) := by
  intro h result h' hrun q hq hst
  have F : Frames user r Extends := frames_extends user r
  have hgrown : h.Extends h' :=
    F.toSurrounds.pass (F.perform m) (respectsWork_extends r) (respectsFlush_extends r) n hrun
  by_cases hspoilt : Event.Spoilt r h'.journal
  · obtain ⟨q', hq'⟩ := Frames.present_pass hrun hq
    exact ⟨q', hq', .spoilt hspoilt⟩
  obtain ⟨events, hj⟩ := hgrown
  cases hst with
  | spoilt hs => exact absurd (hj ▸ hs.append events) hspoilt
  | ended hover hempty hlog hout =>
    exact exists_ended (pass_done hrun) hq (hj ▸ List.subset_append_right events _) hover hempty
      hlog hout
  | waiting hopen hempty hout hbegun hstarted =>
    have hsound : ∀ e ∈ h'.journal, ¬ e.Fails r := fun e he hf => hspoilt (.inl ⟨e, he, hf⟩)
    have hempty' := hempty.mono (hj ▸ List.subset_append_right events _)
    obtain ⟨q', hq', ⟨hstopped, hopen', hcompleted, hout', hstart⟩ | ⟨-, hover, begun, written,
      completed, flushed, closed, hout'⟩⟩ := pass_open hv hq hopen hrun hsound
    · refine ⟨q', hq', .waiting hopen' hempty' (hout'.trans hout) (fun _ => hcompleted)
        fun hmem => ?_⟩
      exact absurd (hstarted (hstart hmem)).1 (by simp [hstopped])
    · refine ⟨q', hq', .ended hover hempty' ⟨begun, written, completed, flushed, closed, rfl⟩ ?_⟩
      rw [hout', hout, List.append_assoc, List.append_assoc]
      rfl

theorem stands_flush {result : Except RenderError Unit} (hq : h.requests[r.index]? = some q)
    (hrunning : 0 < q.running) (hflowing : q.flowing = true)
    (hflowed : q.flushing = false → .flowed r false ∈ h.journal) (hst : Stands v past r h q)
    (hrun : flush user (perform user m) r n h = some (result, h')) :
    ∃ q', h'.requests[r.index]? = some q' ∧ Stands v past r h' q' := by
  have F : Frames user r Extends := frames_extends user r
  obtain ⟨events, hj⟩ := F.flush (F.perform m) (respectsFlush_extends r) n hrun
  by_cases hspoilt : Event.Spoilt r h'.journal
  · obtain ⟨q', hq'⟩ := Frames.present_flush hrun hq
    exact ⟨q', hq', .spoilt hspoilt⟩
  have hsub : h.journal ⊆ h'.journal := hj ▸ List.subset_append_right events _
  cases hst with
  | spoilt hs => exact absurd (hj ▸ hs.append events) hspoilt
  | ended hover hempty hlog hout =>
    exact exists_ended (flush_done hrun) hq hsub hover hempty hlog hout
  | @waiting empties hopen hempty hout hbegun hstarted =>
    have hsound : Silent (Event.Fails r) h h' :=
      ⟨events, hj.symm, fun e he hf =>
        hspoilt (.inl ⟨e, hj ▸ List.mem_append_left _ he, hf⟩)⟩
    rcases hopen.work with ⟨hsegments, hrows, hpinged⟩ | ⟨hcompleted, hrows⟩
    · have hnone : ∀ kind, q.rows kind = [] := fun kind => by
        cases kind
        · exact hrows
        · exact hopen.errorRows
      have hfirst : ∀ e ∈ h.journal, ¬ e.Begins r := by
        intro e he hb
        have hall := hbegun ⟨e, he, hb⟩
        rw [hsegments] at hall
        exact Bool.false_ne_true (hall _ (Array.mem_singleton.mpr rfl))
      rcases flush_empty hq hrunning hnone (by simp [hopen.pending]) hopen.flushing hopen.closed
        hrun hsound with ⟨h₁, ⟨earlier, hj₁, hquiet⟩, later, hlater⟩ |
          ⟨⟨events', hj', hquiet⟩, begun, completed, flushed, q', hout', hq', hstays⟩
      · refine absurd (.inr ⟨later, earlier ++ h.journal, ?_, ?_, fun e he => ?_⟩) hspoilt
        · rw [← hj₁]
          exact hlater.symm
        · exact List.mem_append_right _ (hflowed hopen.flushing)
        · exact (List.mem_append.mp he).elim (hquiet e) (hfirst e)
      · refine ⟨q', hq', .waiting (hstays.isOpen hopen)
          ⟨.cons begun completed flushed hempty.empty, fun _ => hsub (hflowed hopen.flushing)⟩ ?_
          ?_ fun hmem => ⟨hstays.flowing hflowing, ?_⟩⟩
        · rw [hout', hout]
          rfl
        · rintro ⟨e, he, hb⟩
          rw [hj'] at he
          exact absurd hb ((List.mem_append.mp he).elim (hquiet e) (hfirst e))
        · change Event.awaitedIn (h'.journal.filter (Event.isOf r)) = true
          rw [hj'] at hmem ⊢
          exact Event.awaitedIn_append hquiet
            ((List.mem_append.mp hmem).imp_right fun hmem => (hstarted hmem).2)
    · obtain ⟨-, begun, written, completed, flushed, closed, q', hout', hq', hdone, hclosed, hpending,
        hnone⟩ := flush_one hq hcompleted hrows hopen.errorRows hopen.pending hopen.flushing
          hopen.closed hrun hsound
      refine ⟨q', hq', .ended ⟨hdone.segments, hclosed, hpending, hnone⟩ (hempty.mono hsub)
        ⟨begun, written, completed, flushed, closed, rfl⟩ ?_⟩
      rw [hout', hout, List.append_assoc, List.append_assoc]
      rfl

theorem stands_resume {result : Except RenderError Unit} (hq : h.requests[r.index]? = some q)
    (hrunning : 0 < q.running) (hst : Stands v past r h q)
    (hrun : (do
      record (.flowed r (← request r).flushing)
      modifyRequest r fun req => { req with flowing := true }
      flush user (perform user m) r n : HostM κ σ _) h = some (result, h')) :
    ∃ q', h'.requests[r.index]? = some q' ∧ Stands v past r h' q' := by
  obtain ⟨⟨q₀, h₀⟩, hreq, hflush⟩ := Option.bind_eq_some_iff.mp hrun
  obtain ⟨hq₀, rfl⟩ := request_of_run hreq
  cases hq.symm.trans hq₀
  have htold : Stands v past r (h₀.tell (.flowed r q.flushing)) q :=
    hst.tell rfl (by simp [Event.Begins]) (.inl nofun)
  have hq₁ : (h₀.tell (.flowed r q.flushing)).requests[r.index]? = some q := hq
  refine stands_flush (requests_update_self hq₁ _) hrunning rfl (fun hidle => ?_) htold.flow hflush
  have hidle : q.flushing = false := hidle
  exact hidle ▸ List.mem_cons_self

theorem advances_flow : Respects (Advances v past r) (running r do
    record (.flowed r (← request r).flushing)
    modifyRequest r fun req => { req with flowing := true }
    flush user (perform user m) r n) := by
  intro h result h' hrun q hq hst
  obtain ⟨h₁, hrest, rfl⟩ := running_of_run hrun
  obtain ⟨q₁, hq₁, hst₁⟩ := advances_running h (· + 1) q hq hst
  have hrunning : 0 < q₁.running := by
    cases (requests_update_self hq _).symm.trans hq₁
    exact Nat.succ_pos _
  obtain ⟨q', hq', hst'⟩ := stands_resume hq₁ hrunning hst₁ hrest
  exact advances_running h₁ (· - 1) q' hq' hst'

/-- Whatever is done, a request over plain data stands somewhere. -/
theorem frames_advances (user : UserCode κ σ) (past : List Event) (r : RequestId) (hv : v.IsPlain) :
    Frames user r (Advances v past r) := by
  have F := surrounds_advances (κ := κ) (σ := σ) v past r
  have hvisit : ∀ {α : Type} {m : HostM κ σ α}, Respects (Advances v past r) m →
      Respects (Advances v past r) (running r m) :=
    F.running advances_running
  refine
    { F with
      visit := hvisit
      start := ?_
      flow := fun n _ => advances_flow
      pass := fun n α k _ hk => hvisit (F.bind (advances_pass hv) hk) }
  intro h a h' hrun
  exact F.trans (advances_start h) (F.schedulePass hrun)

/-! ## Sessions -/

variable {h₀ : Host κ σ} {settings : RequestSettings κ}

theorem made_of_run {model : Model κ} (hmade : newRequest settings model h₀ = some (r, h₁)) :
    h₀.requests[r.index]? = none ∧ h₁.requests[r.index]? = some (.ofModel settings model) ∧
      h₁.journal = .issued r (RowId.ofNat 0) :: h₀.journal ∧ h₁.queue = h₀.queue ∧
      h₁.tasks = h₀.tasks := by
  rw [run_newRequest] at hmade
  cases hmade
  exact ⟨by simp, by simp [tell], rfl, rfl, rfl⟩

theorem stands_of_steps (hv : v.IsPlain) (hr : Reachable user (fun _ => True) h₀)
    (hmade : newRequest settings (.ofJson v) h₀ = some (r, h₁))
    (hsteps : Relation.ReflTransGen (Step user fun _ => True) h₁ h) :
    ∃ q, h.requests[r.index]? = some q ∧ Stands v (h₀.outputs r) r h q := by
  obtain ⟨hnone, hq, hj, -, -⟩ := made_of_run hmade
  have hunheard : ∀ e ∈ h₁.journal, e.request? = some r → ¬ e.IsAside →
      e = .issued r (RowId.ofNat 0) := by
    intro e hmem he haside
    rw [hj] at hmem
    rcases List.mem_cons.mp hmem with rfl | hmem
    · rfl
    · exact absurd ((hr.course_any r).asides hnone (mem_log_of_journal hmem he)) haside
  refine (frames_advances user (h₀.outputs r) r hv).steps hsteps hq _ hq
    (.waiting .ofJson ⟨.nil, fun hne => absurd rfl hne⟩ ?_ ?_ fun hmem => ?_)
  · simp [outputs, hj, Event.isOutput]
  · rintro ⟨e, hmem, nested, rfl⟩
    cases hunheard _ hmem rfl id
  · cases hunheard _ hmem rfl id

/-- The request is over, and since the first state it has put out this row and nothing else; before
the row, empty batches may have been asked for if the flow was resumed. -/
def HasDelivered (r : RequestId) (row : Row) (h₀ h : Host κ σ) : Prop :=
  ∃ q events empties, h.requests[r.index]? = some q ∧ q.IsOver ∧
    h.journal = events ++ h₀.journal ∧ Event.Empties r h.journal empties ∧
    Event.IsDelivery r row empties (events.filter (Event.isOutput r))

/-- A request over plain data whose work was started and that has no pass left is over. -/
theorem over_of_steps (hv : v.IsPlain) (hr : Reachable user (fun _ => True) h₀)
    (hmade : newRequest settings (.ofJson v) h₀ = some (r, h₁))
    (hsteps : Relation.ReflTransGen (Step user fun _ => True) h₁ h)
    (hsound : ∀ c e, .called r c (.error e) ∉ h.journal)
    (hfirst : ¬ Event.Preempted r h.journal) (hstarted : .started r ∈ h.journal)
    (hidle : ¬ h.HasPass r) : HasDelivered r (Row.ofJson v) h₀ h := by
  obtain ⟨q, hq, hst⟩ := stands_of_steps hv hr hmade hsteps
  have hmake : Step user (fun _ => True) h₀ h₁ := .create settings _ hmade
  have hreached : Reachable user (fun _ => True) h := by
    obtain ⟨start, outcomes, hbefore⟩ := hr
    exact ⟨start, outcomes, (hbefore.tail hmake).trans hsteps⟩
  obtain ⟨-, hq₁, hj₁, -, -⟩ := made_of_run hmade
  have hgrown : h₁.Extends h := (frames_extends user r).steps hsteps hq₁
  have hmade : h₀.Extends h₁ := by
    rw [Extends, hj₁]
    exact List.suffix_cons _ _
  obtain ⟨events, hj⟩ : h₀.Extends h := hmade.trans hgrown
  cases hst with
  | spoilt hs =>
    rcases hs with ⟨_, he, c, e, rfl⟩ | hpreempted
    · exact absurd he (hsound c e)
    · exact absurd hpreempted hfirst
  | waiting hopen hempty hout hbegun hwaits =>
    exact absurd (hreached.awaited (hwaits hstarted).2) hidle
  | @ended empties log hover hempty hlog hout =>
    refine ⟨q, events, empties, hq, hover, hj.symm, hempty, ?_⟩
    have hsplit : events.filter (Event.isOutput r) ++ h₀.outputs r = log ++ h₀.outputs r := by
      rw [← hout, outputs, outputs, ← List.filter_append, hj]
    rwa [List.append_cancel_right hsplit]

end Host

end

end TreeStream
