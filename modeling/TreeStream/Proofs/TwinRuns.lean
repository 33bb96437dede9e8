import TreeStream.Proofs.Twins

/-!
# What twins do

If user code leads from twins to twins, so do flushes, pings, and the effects of the serializer.
-/

namespace TreeStream

variable {κ σ σ' : Type}

/-- Only a segment of a request whose call is under way is tried, and only then something may be
behind if models may be in wrappers. -/
def Legal (T : Twinning κ σ σ') (calls : RequestId → Nat) (tried : Tried) : Prop :=
  ∀ r, tried r ≠ none → T.wraps = true ∧ 0 < calls r

structure TwinUsers (T : Twinning κ σ σ') (user : UserCode κ σ) (user' : UserCode κ σ')
    (call : (c : HostCall κ) → HostM κ σ c.Reply)
    (call' : Nat → (c : HostCall κ) → HostM κ σ' c.Reply) : Prop where
  asks : ∀ {calls tried}, Legal T calls tried → ∀ c,
    Tracks T calls tried Eq (call c) fun n => call' n c
  render : ∀ {calls tried}, Legal T calls tried → ∀ code props ref,
    Tracks T calls tried (Resolution.Alike T.wraps) ((user.render code props ref).run call)
      fun n => (user'.render code props ref).run (call' n)
  load : ∀ {calls tried}, Legal T calls tried → ∀ code,
    Tracks T calls tried (Resolution.Alike T.wraps) ((user.load code).run call)
      fun n => (user'.load code).run (call' n)
  toModel : ∀ {calls tried}, Legal T calls tried → ∀ code,
    Tracks T calls tried (Model.Alike T.wraps) ((user.toModel code).run call)
      fun n => (user'.toModel code).run (call' n)
  await : ∀ {calls tried}, Legal T calls tried → ∀ code onFulfilled onRejected,
    Tracks T calls tried Eq ((user.await code onFulfilled onRejected).run call)
      fun n => (user'.await code onFulfilled onRejected).run (call' n)
  react : ∀ {calls tried}, Legal T calls tried → ∀ code,
    Tracks T calls tried Eq ((user.react code).run call)
      fun n => (user'.react code).run (call' n)
  metadata : ∀ {calls tried}, Legal T calls tried → ∀ code m,
    Tracks T calls tried Eq ((user.metadata code m).run call)
      fun n => (user'.metadata code m).run (call' n)
  destination : ∀ {calls tried}, Legal T calls tried → ∀ code c,
    Tracks T calls tried Eq ((user.destination code c).run call)
      fun n => (user'.destination code c).run (call' n)

theorem Host.run_warn {h : Host κ σ} {r : RequestId} {q : Request κ}
    (hq : h.requests[r.index]? = some q) (text : String) :
    Host.warn r text h =
      some ((), if q.settings.reportsWarnings then h.tell (.warning r text) else h) := by
  rw [warn, run_bind, run_request hq, Option.bind_some]
  cases q.settings.reportsWarnings <;> rfl

/-- The segment is now being tried, which matters if models may be in wrappers. -/
def Twinning.trying (T : Twinning κ σ σ') (tried : Tried) (r : RequestId) (s : SegmentId) : Tried :=
  if T.wraps then Function.update tried r (some s) else tried

section
variable {T : Twinning κ σ σ'} {calls : RequestId → Nat} {tried : Tried} {r : RequestId}
  {s : SegmentId}

theorem Twinning.trying_of_ne {r' : RequestId} (hr : r' ≠ r) :
    T.trying tried r s r' = tried r' := by
  unfold trying
  split
  · exact Function.update_of_ne hr ..
  · rfl

theorem Legal.trying (hl : Legal T calls tried) (hpos : 0 < calls r) :
    Legal T calls (T.trying tried r s) := by
  intro r' htried
  by_cases hr : r' = r
  · subst hr
    by_cases hw : T.wraps = true
    · exact ⟨hw, hpos⟩
    · rw [Twinning.trying, if_neg hw] at htried
      exact hl r' htried
  · rw [Twinning.trying_of_ne hr] at htried
    exact hl r' htried

/-- A segment that begins to be tried need not be the same any more. -/
theorem Host.Twin.trying {h : Host κ σ} {h' : Host κ σ'} (ht : h.Twin T tried h')
    (hnone : tried r = none) : h.Twin T (T.trying tried r s) h' := by
  refine { ht with requests := fun r' q q' hq hq' => ?_ }
  obtain ⟨segments, strict, hstrict, hsegments⟩ := ht.requests r' q q' hq hq'
  refine ⟨segments, strict, hstrict, hsegments.size, fun s' seg seg' hseg hseg' => ?_⟩
  refine (hsegments.each s' seg seg' hseg hseg').mono fun htried => ?_
  have hr : r' ≠ r := by
    rintro rfl
    cases hnone.symm.trans htried
  rw [Twinning.trying_of_ne hr, htried]

def Request.setQuery (s : SegmentId) (query : Segment κ → Query κ) (q : Request κ) : Request κ :=
  { q with segments := q.segments.modify s.index fun seg => { seg with query := query seg } }

/-- While a segment is tried, its query does not matter. -/
theorem Host.Twin.setQuery (hw : T.wraps = true) {h : Host κ σ} {h' : Host κ σ'}
    (ht : h.Twin T (T.trying tried r s) h') (query query' : Segment κ → Query κ) :
    Host.Twin T (T.trying tried r s) (h.update r (Request.setQuery s query))
      (h'.update r (Request.setQuery s query')) := by
  refine ht.update (fun _ _ => rfl) fun q q' htwin => ?_
  obtain ⟨segments, strict, hstrict, hsegments⟩ := htwin
  refine ⟨_, strict, hstrict, ?_⟩
  dsimp only [Request.setQuery, Request.twin]
  refine hsegments.modify (fun _ _ hs => hs) fun seg seg' hseg => ?_
  refine ⟨hseg.id, hseg.completed, fun hc => absurd ?_ (hc hw).2⟩
  rw [Twinning.trying, if_pos hw, Function.update_self]

theorem Host.update_setQuery (h : Host κ σ) (r : RequestId) (s : SegmentId) :
    h.update r (Request.setQuery s Segment.query) = h :=
  update_same (fun q => congrArg (fun segments => { q with segments := segments })
    (modify_id q.segments s.index)) h r

end

namespace Mirrors

open Host

variable {T : Twinning κ σ σ'} {calls : RequestId → Nat} {tried tried' : Tried} {r : RequestId}
  {user : UserCode κ σ} {user' : UserCode κ σ'} {call : (c : HostCall κ) → HostM κ σ c.Reply}
  {call' : Nat → (c : HostCall κ) → HostM κ σ' c.Reply}

theorem ite {α α' : Type} {R : α → α' → Prop} {p : Prop} [Decidable p] {a b : HostM κ σ α}
    {a' b' : Nat → HostM κ σ' α'} (ha : p → Mirrors T calls tried tried' R a a')
    (hb : ¬ p → Mirrors T calls tried tried' R b b') :
    Mirrors T calls tried tried' R (if p then a else b) fun n => if p then a' n else b' n := by
  by_cases hp : p
  · simpa only [if_pos hp] using ha hp
  · simpa only [if_neg hp] using hb hp

/-! ## Queues -/

theorem schedulePass : Tracks T calls tried Eq (Host.schedulePass r : HostM κ σ Unit)
    fun _ => (Host.schedulePass r : HostM κ σ' Unit) := by
  refine tell (request_same fun q segments strict => ?_)
  dsimp only [Request.twin]
  cases q.settings.queue with
  | manual =>
    refine change (fun _ => .of_eq rfl rfl) fun h h' ht =>
      { ht with queue := ?_, scheduled := ?_ }
    · exact congrArg (· ++ [Work.pass r]) ht.queue
    · exact congrArg (· + 1) ht.scheduled
  | tasks =>
    refine change (fun _ => .of_eq rfl rfl) fun h h' ht => { ht with tasks := ?_ }
    exact congrArg (· ++ [Task.pass r]) ht.tasks

theorem ping (s : SegmentId) : Tracks T calls tried Eq (Host.ping r s : HostM κ σ Unit)
    fun _ => (Host.ping r s : HostM κ σ' Unit) := by
  refine get fun h h' hl => ?_
  rw [hl.isAlive r]
  cases h.isAlive r with
  | false => exact pure rfl
  | true =>
    refine tell ?_
    refine update (by exact fun _ _ _ => ⟨rfl, rfl, rfl, rfl⟩) ?_
    exact request_same fun q segments strict => ite (fun _ => schedulePass) fun _ => pure rfl

/-! ## Flushes -/

theorem callSink (c : SinkCall) :
    Tracks T calls tried Eq (Host.callSink r c : HostM κ σ (Except RenderError Bool))
      fun _ => (Host.callSink r c : HostM κ σ' (Except RenderError Bool)) := by
  refine request_same fun q segments strict => ?_
  dsimp only [Request.twin]
  refine update (by exact fun _ _ _ => ⟨rfl, rfl, rfl, rfl⟩) ?_
  refine ite (fun _ => ?_) fun _ => pure rfl
  refine bind_eq (change (fun _ => .of_eq rfl rfl) fun h h' ht => { ht with tasks := ?_ })
    fun _ => pure rfl
  exact congrArg (· ++ [Task.driver r]) ht.tasks

theorem takeRow (kind : RowKind) :
    Tracks T calls tried Eq (Host.takeRow r kind : HostM κ σ (Option Row))
      fun _ => (Host.takeRow r kind : HostM κ σ' (Option Row)) := by
  refine request_same fun q segments strict => ?_
  rw [show (q.twin segments strict).rows kind = q.rows kind by cases kind <;> rfl]
  cases q.rows kind with
  | nil => exact pure rfl
  | cons row rest =>
    refine update ?_ (pure rfl)
    cases kind <;> exact fun _ _ _ => ⟨rfl, rfl, rfl, rfl⟩

section
variable (U : TwinUsers T user user' call call') (hl : Legal T calls tried)
include U hl

theorem verdict (c : SinkCall) : Tracks T calls tried Eq (Host.verdict user call r c)
    fun n => Host.verdict user' (call' n) r c := by
  refine request_same fun q segments strict => ?_
  dsimp only [Request.twin]
  cases q.settings.guard with
  | none => exact pure rfl
  | some code => exact U.destination hl code c

theorem callDestination (c : SinkCall) :
    Tracks T calls tried Eq (Host.callDestination user call r c)
      fun n => Host.callDestination user' (call' n) r c := by
  refine request_same fun q segments strict => tell (bind_eq (verdict U hl c) fun v => ?_)
  cases v with
  | fail e => exact bind_eq (pure rfl) fun _ => tell (pure rfl)
  | pass => exact bind_eq (callSink c) fun _ => tell (pure rfl)
  | answer welcome =>
    refine bind_eq (callSink c) fun a => ?_
    cases a <;> exact bind_eq (pure rfl) fun _ => tell (pure rfl)

theorem writeRows (kind : RowKind) (n j : Nat) :
    Tracks T calls tried Eq (Host.writeRows user call r kind n)
      fun m => Host.writeRows user' (call' m) r kind (m - j) := by
  induction n generalizing j with
  | zero => exact failure
  | succ n ih =>
    refine step (g := fun m => Host.writeRows user' (call' m) r kind) ?_
    refine bind_eq (takeRow kind) fun row => ?_
    cases row with
    | none => exact pure rfl
    | some row =>
      refine bind_eq (callDestination U hl _) fun a => ?_
      rcases a with e | _ | _
      · exact pure rfl
      · exact update (by exact fun _ _ _ => ⟨rfl, rfl, rfl, rfl⟩) (pure rfl)
      · exact ih (j + 1)

theorem writeBatch (n : Nat) : Tracks T calls tried Eq (Host.writeBatch user call r n)
    fun m => Host.writeBatch user' (call' m) r m := by
  refine bind_eq (writeRows U hl .model n 0) fun written => ?_
  cases written with
  | error e => exact pure rfl
  | ok u => exact writeRows U hl .error n 0

theorem closeIfFinished : Tracks T calls tried Eq (Host.closeIfFinished user call r)
    fun m => Host.closeIfFinished user' (call' m) r := by
  refine request_same fun q segments strict => ite (fun _ => ?_) fun _ => pure rfl
  refine update (by exact fun _ _ _ => ⟨rfl, rfl, rfl, rfl⟩) ?_
  refine bind_eq (callDestination U hl _) fun a => ?_
  cases a <;> exact pure rfl

theorem endBatch (written : Except RenderError Unit) :
    Tracks T calls tried Eq (Host.endBatch user call r written)
      fun m => Host.endBatch user' (call' m) r written := by
  refine bind_eq (callDestination U hl _) fun completed => ?_
  rcases written with e | ⟨⟩
  · exact pure rfl
  rcases completed with e | b
  · exact pure rfl
  refine bind_eq (callDestination U hl _) fun flushed => ?_
  cases flushed with
  | error e => exact pure rfl
  | ok b => exact closeIfFinished U hl

theorem batch (n : Nat) : Tracks T calls tried Eq (Host.batch user call r n)
    fun m => Host.batch user' (call' m) r m := by
  refine bind_eq (callDestination U hl _) fun begun => ?_
  cases begun with
  | error e => exact pure rfl
  | ok b => exact bind_eq (writeBatch U hl n) fun written => endBatch U hl written

theorem flush (n : Nat) : Tracks T calls tried Eq (Host.flush user call r n)
    fun m => Host.flush user' (call' m) r m := by
  refine request_same fun q segments strict => ite (fun _ => pure rfl) fun _ => ?_
  refine update (by exact fun _ _ _ => ⟨rfl, rfl, rfl, rfl⟩) ?_
  refine request_same fun q segments strict => ite (fun _ => ?_) fun _ => ?_
  · exact bind_eq (pure rfl) fun _ =>
      update (by exact fun _ _ _ => ⟨rfl, rfl, rfl, rfl⟩) (pure rfl)
  · exact bind_eq (batch U hl n) fun _ =>
      update (by exact fun _ _ _ => ⟨rfl, rfl, rfl, rfl⟩) (pure rfl)

/-! ## Effects of the serializer -/

theorem await (t : Thenable κ) (onFulfilled onRejected : Callback κ) :
    Tracks T calls tried Eq (Host.await user call t onFulfilled onRejected)
      fun m => Host.await user' (call' m) t onFulfilled onRejected := by
  cases t with
  | promise p => exact U.asks hl (.subscribe p onFulfilled onRejected)
  | custom code => exact U.await hl code onFulfilled onRejected

theorem metadata (m : ModuleReference) : Tracks T calls tried Eq (Host.metadata user call r m)
    fun n => Host.metadata user' (call' n) r m := by
  refine request_same fun q segments strict => ?_
  dsimp only [Request.twin]
  cases q.settings.modules with
  | manifest manifest => exact pure rfl
  | user code => exact U.metadata hl code m

end

theorem recordRun (step : UserStep) :
    Tracks T calls tried Eq (Host.recordRun r step : HostM κ σ Unit)
      fun _ => (Host.recordRun r step : HostM κ σ' Unit) := by
  refine get fun h h' hl => ?_
  rw [hl.inPass]
  exact record _

theorem allocate : Tracks T calls tried Eq (Host.allocate r : HostM κ σ RowId)
    fun _ => (Host.allocate r : HostM κ σ' RowId) :=
  request_same fun _ _ _ =>
    update (by exact fun _ _ _ => ⟨rfl, rfl, rfl, rfl⟩) (tell (pure rfl))

/-- A segment more on both sides, with queries that are alike. -/
theorem newSegment {query query' : Query κ} (hquery : Query.Alike T.wraps query query') :
    Tracks T calls tried Eq (Host.newSegment r query : HostM κ σ SegmentId)
      fun _ => (Host.newSegment r query' : HostM κ σ' SegmentId) := by
  refine bind_eq allocate fun id => request fun q q' htwin => ?_
  obtain ⟨segments, strict, -, hsegments⟩ := htwin
  refine bind_eq (t := tried) (change (fun _ => .update fun _ => rfl) fun h h' ht =>
    ht.update (fun _ _ => rfl) fun q q' htwin => ?_) fun _ => pure ?_
  · obtain ⟨segments, strict, hstrict, hsegments⟩ := htwin
    exact ⟨_, strict, hstrict, hsegments.push hquery id⟩
  · exact congrArg SegmentId.mk hsegments.size.symm

section
variable (U : TwinUsers T user user' call call') (hl : Legal T calls tried)
include U hl

theorem waitFor (s : SegmentId) (t : Thenable κ) :
    Tracks T calls tried Eq (Host.waitFor user call r s t)
      fun m => Host.waitFor user' (call' m) r s t :=
  await U hl t _ _

theorem suspend {query query' : Query κ} (hquery : Query.Alike T.wraps query query')
    (t : Thenable κ) : Tracks T calls tried Eq (Host.suspend user call r query t)
      fun m => Host.suspend user' (call' m) r query' t := by
  refine update (by exact fun _ _ _ => ⟨rfl, rfl, rfl, rfl⟩) ?_
  refine bind_eq (newSegment hquery) fun s => bind_eq (waitFor U hl s t) fun _ => ?_
  exact segment fun seg seg' hseg => pure hseg.id.symm

end

theorem completeError (id : RowId) (e : RenderError) :
    Tracks T calls tried Eq (Host.completeError r id e : HostM κ σ Unit)
      fun _ => (Host.completeError r id e : HostM κ σ' Unit) :=
  update (by exact fun _ _ _ => ⟨rfl, rfl, rfl, rfl⟩) (record _)

theorem emitError (e : RenderError) :
    Tracks T calls tried Eq (Host.emitError r e : HostM κ σ RowId)
      fun _ => (Host.emitError r e : HostM κ σ' RowId) :=
  update (by exact fun _ _ _ => ⟨rfl, rfl, rfl, rfl⟩)
    (bind_eq allocate fun id => bind_eq (completeError id e) fun _ => pure rfl)

/-! ## Warnings -/

theorem warn (text : String) : Tracks T calls tried Eq (Host.warn r text : HostM κ σ Unit)
    fun _ => (Host.warn r text : HostM κ σ' Unit) :=
  request_same fun _ _ _ => ite (fun _ => record _) fun _ => pure rfl

/-- A warning that does not count may be missing on the other side. -/
theorem warn_left (hw : T.warned = false) (text : String) :
    Tracks T calls tried Eq (Host.warn r text : HostM κ σ Unit)
      fun _ => (Pure.pure () : HostM κ σ' Unit) := by
  intro h a h₁ hrun
  obtain ⟨⟨q, h₀⟩, hreq, -⟩ := Option.bind_eq_some_iff.mp hrun
  obtain ⟨hq, -⟩ := request_of_run hreq
  rw [run_warn hq] at hrun
  cases hrun
  split
  · refine ⟨.tell h _, fun h' ht _ _ => ⟨0, (), h', fun _ _ => rfl, rfl, ht.tell_left ?_⟩⟩
    simp [Twinning.counts, hw, Event.isWarning]
  · exact ⟨.refl h, fun h' ht _ _ => ⟨0, (), h', fun _ _ => rfl, rfl, ht⟩⟩

theorem warn_right (hw : T.warned = false) (hpos : 0 < calls r) (text : String) :
    Tracks T calls tried Eq (Pure.pure () : HostM κ σ Unit)
      fun _ => (Host.warn r text : HostM κ σ' Unit) := by
  intro h a h₁ hrun
  cases hrun
  refine ⟨.refl h, fun h' ht hb _ => ?_⟩
  obtain ⟨q, hq, -⟩ := hb r hpos
  obtain ⟨q', hq', -⟩ := ht.request hq
  refine ⟨0, (), _, fun n _ => run_warn hq' text, rfl, ?_⟩
  split
  · exact ht.tell_right (by simp [Twinning.counts, hw, Event.isWarning])
  · exact ht

theorem warnings (hpos : 0 < calls r) {strict strict' : Bool} {text text' : String}
    (hsame : T.warned = true → strict' = strict ∧ text' = text) :
    Tracks T calls tried Eq (if strict then Host.warn r text else Pure.pure () : HostM κ σ Unit)
      fun _ => (if strict' then Host.warn r text' else Pure.pure () : HostM κ σ' Unit) := by
  cases hw : T.warned with
  | true =>
    obtain ⟨rfl, rfl⟩ := hsame hw
    exact ite (fun _ => warn text') fun _ => pure rfl
  | false =>
    have hleft : Tracks T calls tried Eq
        (if strict then Host.warn r text else Pure.pure () : HostM κ σ Unit)
        fun _ => (Pure.pure () : HostM κ σ' Unit) := by
      cases strict with
      | true => exact warn_left hw text
      | false => exact pure rfl
    have hright : Tracks T calls tried Eq (Pure.pure () : HostM κ σ Unit)
        fun _ => (if strict' then Host.warn r text' else Pure.pure () : HostM κ σ' Unit) := by
      cases strict' with
      | true => exact warn_right hw hpos text'
      | false => exact pure rfl
    simpa only [bind_pure_unit, pure_bind] using hleft.bind_eq fun _ => hright

/-! ## Segments that are tried -/

section
variable {α α' : Type} {R : α → α' → Prop} {s : SegmentId}

/-- The segment changes on both sides, after which it is the same again. -/
theorem modifySegment (hnone : tried r = none) {f f' : Segment κ → Segment κ}
    (hf : ∀ seg seg', seg.Twin T.wraps True seg' → (f seg).Twin T.wraps False (f' seg')) :
    Mirrors T calls (T.trying tried r s) tried Eq (Host.modifySegment r s f : HostM κ σ Unit)
      fun _ => (Host.modifySegment r s f' : HostM κ σ' Unit) := by
  refine change (fun _ => .update fun _ => rfl) fun h h' ht =>
    ht.update (fun r' hr => (Twinning.trying_of_ne hr).symm) fun q q' htwin => ?_
  obtain ⟨segments, strict, hstrict, hsegments⟩ := htwin
  refine ⟨_, strict, hstrict, hsegments.modify ?_ fun seg seg' hseg => ?_⟩
  · intro s' hs hs'
    unfold Twinning.trying at hs'
    split at hs'
    · rw [Function.update_self] at hs'
      exact absurd (Option.some.inj hs').symm hs
    · exact hs'
  · rw [hnone]
    exact (hf seg seg' (hseg.mono fun _ => trivial)).mono fun hs => nomatch hs

/-- While a segment is tried, the first host alone may reach a layer. -/
theorem setQuery_left (hw : T.wraps = true) (query : Query κ) {k : Unit → HostM κ σ α}
    {m' : Nat → HostM κ σ' α'} (hk : Mirrors T calls (T.trying tried r s) tried' R (k ()) m') :
    Mirrors T calls (T.trying tried r s) tried' R
      (Host.modifySegment r s (fun seg => { seg with query := query }) >>= k) m' := by
  have hsteady : ∀ h : Host κ σ, h.Steady (h.update r (Request.setQuery s fun _ => query)) :=
    fun _ => .update fun _ => rfl
  exact change_left hsteady (fun h h' ht => h'.update_setQuery r s ▸ ht.setQuery hw _ _) hk

/-- While a segment is tried, the second host alone may reach a layer. -/
theorem setQuery_right (hw : T.wraps = true) (query : Query κ) {m : HostM κ σ α}
    {k' : Nat → Unit → HostM κ σ' α'}
    (hk : Mirrors T calls (T.trying tried r s) tried' R m fun n => k' n ()) :
    Mirrors T calls (T.trying tried r s) tried' R m fun n =>
      Host.modifySegment r s (fun seg => { seg with query := query }) >>= k' n := by
  have hreach : ∀ (h : Host κ σ) (h' : Host κ σ'), h.Twin T (T.trying tried r s) h' →
      h.Twin T (T.trying tried r s) (h'.update r (Request.setQuery s fun _ => query)) :=
    fun h h' ht => h.update_setQuery r s ▸ ht.setQuery hw _ _
  exact change_right hreach hk

theorem failSegment (hnone : tried r = none) (e : RenderError) :
    Mirrors T calls (T.trying tried r s) tried Eq (Host.failSegment r s e : HostM κ σ Unit)
      fun _ => (Host.failSegment r s e : HostM κ σ' Unit) := by
  refine bind_eq (modifySegment hnone fun _ _ hseg => hseg.complete) fun _ => ?_
  refine segment fun seg seg' hseg => ?_
  rw [hseg.id]
  exact completeError seg.id e

theorem completeSegment (hnone : tried r = none) (json : String) :
    Mirrors T calls (T.trying tried r s) tried Eq (Host.completeSegment r s json : HostM κ σ Unit)
      fun _ => (Host.completeSegment r s json : HostM κ σ' Unit) := by
  refine bind_eq (modifySegment hnone fun _ _ hseg => hseg.complete) fun _ => ?_
  refine segment fun seg seg' hseg => ?_
  rw [hseg.id]
  exact update (by exact fun _ _ _ => ⟨rfl, rfl, rfl, rfl⟩) (record _)

/-- If the segment ends with a refusal, the twins are spoilt. -/
theorem failSegment_spoiling (hw : T.wraps = true) {e : RenderError} (he : e.IsRefusal κ)
    {m' : Nat → HostM κ σ' Unit} :
    Mirrors T calls tried tried' Eq (Host.failSegment r s e : HostM κ σ Unit) m' := by
  refine spoiling fun h u h₁ hrun => ?_
  obtain ⟨⟨seg, h₀⟩, hseg, hend⟩ := Option.bind_eq_some_iff.mp hrun
  obtain ⟨q, seg', -, -, -, rfl⟩ := completed_of_run hseg
  cases hend
  refine ⟨?_, fun hu => hu _ List.mem_cons_self (T.refused hw r seg.id e he)⟩
  refine .trans ?_ (.tell _ _)
  refine .trans ?_ (.update fun _ => rfl)
  exact .update fun _ => rfl

end

end Mirrors
end TreeStream
