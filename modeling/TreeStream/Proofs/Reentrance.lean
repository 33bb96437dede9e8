import TreeStream.Proofs.Dialogues
import TreeStream.Proofs.Rounds

/-!
# Calls from inside

User code may call back while a request is at work, and two of these calls are not harmless. A
destination that resumes the flow after it has stopped it within the same batch leaves rows behind:
the flush under way is past them, and the driver sees no reason to begin another one. A component
that runs a pass may have its own segment tried and completed while it renders; then it is completed
once more, and the request counts one row too few. Without such calls no row is left behind, and
each segment is completed once, also by passes within passes.
-/

namespace TreeStream

variable {κ σ : Type} {W : World κ} {r : RequestId} {v : View κ}

/-! ## A flow resumed by the destination -/

/-- Some flush has its flow resumed after the destination has said that it wants no more rows. -/
def Event.isResumedLate : List Event → Bool
  | [] => false
  | .flowed _ nested :: log => (nested && saturatedIn log) || isResumedLate log
  | _ :: log => isResumedLate log

theorem Event.isResumedLate_cons {e : Event} {log : List Event}
    (h : isResumedLate (e :: log) = false) : isResumedLate log = false := by
  cases e with
  | flowed r nested => exact (Bool.or_eq_false_iff.mp h).2
  | _ => exact h

theorem View.timely_of_isResumedLate (h : Event.isResumedLate v.log = false) : v.Timely r := by
  intro later earlier hlog
  rw [hlog] at h
  clear hlog
  induction later with
  | nil => exact (Bool.or_eq_false_iff.mp h).1
  | cons e later ih => exact ih (Event.isResumedLate_cons h)

namespace Host

/-- In every state that a session without nested passes reaches: if the destination has not failed
and has not resumed the flow of a batch in which it wanted no more rows, then no row is left behind.
Either all completed rows were written, or the flow has stopped, or a pass is queued. -/
theorem flow_resumed_in_time (user : UserCode κ σ) {h : Host κ σ}
    (hr : Reachable user (fun _ => True) h) {r : RequestId} {q : Request κ}
    (hq : h.requests[r.index]? = some q) (hu : h.Unnested r)
    (hsound : ∀ c e, .called r c (.error e) ∉ h.journal)
    (hlate : Event.isResumedLate (h.view r).log = false) :
    q.queued = [] ∨ q.flowing = false ∨ h.HasPass r := by
  apply rows_can_wait hr hq hu hsound
  exact View.timely_of_isResumedLate hlate

end Host

namespace Late

/-- A destination that takes one row of a batch, and resumes the flow at one call of each batch. -/
def resuming (resumes : SinkCall → Bool) : UserCode Unit Unit where
  __ := user
  destination _ c :=
    match c with
    | .write _ => .done (.answer false)
    | c => if resumes c then .call (.startFlowing ⟨0⟩) fun _ => .done .pass else .done .pass

def collected : Script Unit Unit Unit :=
  .call .newPromise fun _ => .call (.performWork ⟨0⟩) fun _ =>
    .call (.settle ⟨0⟩ (.ok (.string "done"))) fun _ => .call .runNext fun _ =>
      .call (.startFlowing ⟨0⟩) fun _ => .done ()

theorem collected_makes : collected.Makes fun _ => True :=
  ⟨trivial, fun _ _ => ⟨trivial, fun _ _ => ⟨trivial, fun _ _ => ⟨trivial, fun _ _ =>
    ⟨trivial, fun _ _ => trivial⟩⟩⟩⟩⟩

end Late

namespace Host

/-- The flow is resumed when a batch begins, and stops after the first row. -/
theorem flow_resumed_in_time_begin :
    ∃ (h : Host Unit Unit) (q : Request Unit),
      Reachable (Late.resuming (· = .begin)) (fun _ => True) h ∧ h.requests[0]? = some q ∧
      h.Unnested ⟨0⟩ ∧ (∀ c e, .called ⟨0⟩ c (.error e) ∉ h.journal) ∧
      Event.isResumedLate (h.view ⟨0⟩).log = false ∧ .flowed ⟨0⟩ true ∈ h.journal ∧
      q.queued ≠ [] ∧ (q.flowing = false ∨ h.HasPass ⟨0⟩) := by
  obtain ⟨h, q, hr, hq, hp⟩ := exists_reachable (r := ⟨0⟩) (n := 20)
    (Late.resuming (· = .begin)) Late.collected_makes
    (fun h q => decide (h.Unnested ⟨0⟩ ∧ h.journal.all (fun e => !e.isFailure) = true ∧
      Event.isResumedLate (h.view ⟨0⟩).log = false ∧ .flowed ⟨0⟩ true ∈ h.journal ∧
      q.queued ≠ []))
    (by decide +kernel : (play (Late.resuming (· = .begin)) () #[] Late.guarded Late.model
      Late.collected 20).any _ = true)
  obtain ⟨hu, hall, hlate, hflowed, hqueued⟩ := of_decide_eq_true hp
  have hsound : ∀ c e, .called ⟨0⟩ c (.error e) ∉ h.journal := by
    intro c e hmem
    cases List.all_eq_true.mp hall _ hmem
  have hends := flow_resumed_in_time _ hr hq hu hsound hlate
  exact ⟨h, q, hr, hq, hu, hsound, hlate, hflowed, hqueued, hends.resolve_left hqueued⟩

/-- A destination that wants no more rows and resumes the flow once the batch is complete leaves a
row behind that flows, although no pass is queued. -/
theorem row_left_behind :
    ∃ (h : Host Unit Unit) (q : Request Unit),
      Reachable (Late.resuming (· = .complete)) (fun _ => True) h ∧ h.requests[0]? = some q ∧
      h.Unnested ⟨0⟩ ∧ h.journal.all (fun e => !e.isFailure) = true ∧ q.flushing = false ∧
      q.queued.map Row.id = [RowId.ofNat 1] ∧ q.flowing = true ∧ ¬ h.HasPass ⟨0⟩ := by
  obtain ⟨h, q, hr, hq, hp⟩ := exists_reachable (r := ⟨0⟩) (n := 20)
    (Late.resuming (· = .complete)) Late.collected_makes
    (fun h q => decide (h.Unnested ⟨0⟩ ∧ h.journal.all (fun e => !e.isFailure) = true ∧
      q.flushing = false ∧ q.queued.map Row.id = [RowId.ofNat 1] ∧ q.flowing = true ∧
      ¬ h.HasPass ⟨0⟩))
    (by decide +kernel : (play (Late.resuming (· = .complete)) () #[] Late.guarded Late.model
      Late.collected 20).any _ = true)
  exact ⟨h, q, hr, hq, of_decide_eq_true hp⟩

end Host

/-! ## A segment tried while it is tried -/

/-- The row of a call that waits for its answer was offered last. -/
theorem Dialogue.offered_eq_handed {log : List Event} {t : Dialogue} (h : read log = some t) :
    log.reverse.filterMap Event.offeredRow? =
      Event.handedIn log ++ (t.asked.bind SinkCall.row?).toList := by
  induction log generalizing t with
  | nil =>
    cases h
    rfl
  | cons e log ih =>
    obtain ⟨t₀, hread, hstep⟩ := Option.bind_eq_some_iff.mp h
    have ih := ih hread
    rw [List.reverse_cons, List.filterMap_append, ih, Event.handedIn_cons]
    cases e with
    | calling r c n =>
      obtain ⟨⟨hasked, -⟩, hdone⟩ := Option.ite_none_right_eq_some.mp hstep
      cases hdone
      rw [hasked]
      cases c <;> simp [Event.offeredRow?, Event.handedRow?, SinkCall.row?]
    | called r c answer =>
      obtain ⟨hasked, hdone⟩ := Option.ite_none_right_eq_some.mp hstep
      cases hdone
      rw [hasked]
      cases c <;> simp [Event.offeredRow?, Event.handedRow?, SinkCall.row?]
    | _ =>
      cases hstep
      simp [Event.offeredRow?, Event.handedRow?]

namespace Host

/-- The rows that were completed, oldest first. -/
def completed (h : Host κ σ) (r : RequestId) : List Row :=
  (h.view r).log.reverse.filterMap Event.completedRow?

theorem perm_kinds (rows : List Row) :
    rows.Perm (rows.filter (fun row => row.kind = .model) ++
      rows.filter (fun row => row.kind = .error)) := by
  have hkinds : rows.filter (fun row => row.kind = .error) =
      rows.filter (fun row => !decide (row.kind = .model)) := by
    refine List.filter_congr fun row _ => ?_
    cases row.kind <;> rfl
  rw [hkinds]
  exact (List.filter_append_perm _ rows).symm

/-- Between two steps of a session, a completed row was handed over or is queued. -/
theorem completed_perm {user : UserCode κ σ} {h : Host κ σ}
    (hr : Reachable user (fun _ => True) h) {q : Request κ}
    (hq : h.requests[r.index]? = some q) : (h.completed r).Perm (h.handed r ++ q.queued) := by
  have hcourse := hr.course_any r
  obtain ⟨t, hread, hasked, -⟩ := hcourse.talks (q := q) hq
  have hoffered := Dialogue.offered_eq_handed hread
  rw [hasked, Option.bind_none, Option.toList_none, List.append_nil] at hoffered
  have hkind (kind : RowKind) : (h.completed r).filter (fun row => row.kind = kind) =
      (h.handed r).filter (fun row => row.kind = kind) ++ q.rows kind := by
    have hserves := hcourse.serves (q := q) hq kind
    rwa [show Hand.taken ({} : Hand κ) = [] from rfl, List.filter_nil, List.append_nil,
      Event.rowsTold, Event.rowsTold, hoffered] at hserves
  have hcompleted := perm_kinds (h.completed r)
  rw [hkind .model, hkind .error] at hcompleted
  refine hcompleted.trans ?_
  refine List.Perm.trans ?_ ((perm_kinds (h.handed r)).symm.append_right q.queued)
  rw [Request.queued, List.append_assoc, List.append_assoc]
  apply List.Perm.append_left
  rw [← List.append_assoc, ← List.append_assoc]
  exact List.perm_append_comm.append_right _

/-- In every state that a session reaches: as long as no pass tried a segment that another one was
trying and fewer than `2 ^ 32` ids were given out, at most one row was completed for each id, and a
closed request has no open segment. -/
theorem completed_once (user : UserCode κ σ) {h : Host κ σ}
    (hr : Reachable user (fun _ => True) h) {r : RequestId} {q : Request κ}
    (hq : h.requests[r.index]? = some q) (hapart : h.Apart r)
    (hids : (h.issued r).length < 2 ^ 32) :
    ((h.completed r).map Row.id).Nodup ∧ (q.closed = true → q.openIds = []) := by
  have hcourse := hr.course_any r
  have hb := hcourse.balanced hapart (q := q) hq
  constructor
  · have hbound : 0 + (h.issued r).length ≤ 2 ^ 32 := by
      rw [Nat.zero_add]
      exact Nat.le_of_lt hids
    have hissued : (h.issued r).Nodup := by
      rw [show h.issued r = RowId.enumerate (.ofNat 0) (h.issued r).length from hb.issued]
      exact RowId.nodup_enumerate hbound
    obtain ⟨-, hrows, -⟩ := List.nodup_append.mp (hb.perm.nodup_iff.mpr hissued)
    have hperm : (h.completed r).Perm (q.queued ++ Hand.carried ({} : Hand κ) ++ h.handed r) := by
      rw [show Hand.carried ({} : Hand κ) = [] from rfl, List.append_nil]
      exact (completed_perm hr hq).trans List.perm_append_comm
    exact (hperm.map Row.id).nodup_iff.mpr hrows
  · exact fun hclosed => (hb.empty_of_closed hclosed).1

end Host

namespace Late

/-- A custom value whose code fulfils the promise and has a pass run. -/
def hurrying : UserCode Unit Unit where
  __ := user
  toModel _ := .call (.settle ⟨0⟩ (.ok (.string "done"))) fun _ =>
    .call (.performWork ⟨0⟩) fun _ => .done .null

def hurried : Model Unit :=
  .array [.element
      { renderable := .function "Late" ⟨(), .empty⟩, key := none, props := .empty },
    .custom "Hurry" ⟨(), .empty⟩]

end Late

namespace Host

/-- The late component is tried again while the array around it is tried, and either is completed
once. -/
theorem completed_once_hurried :
    ∃ (h : Host Unit Unit) (q : Request Unit),
      Reachable Late.hurrying (fun _ => True) h ∧ h.requests[0]? = some q ∧ ¬ h.Unnested ⟨0⟩ ∧
      h.Apart ⟨0⟩ ∧ (h.issued ⟨0⟩).length < 2 ^ 32 ∧
      (h.completed ⟨0⟩).map Row.id = [RowId.ofNat 1, RowId.ofNat 0] ∧
      ((h.completed ⟨0⟩).map Row.id).Nodup ∧ q.closed = true ∧ q.openIds = [] := by
  obtain ⟨h, q, hr, hq, hp⟩ := exists_reachable (r := ⟨0⟩) (n := 20) Late.hurrying
    Late.opening_makes
    (fun h q => decide (¬ h.Unnested ⟨0⟩ ∧ h.Apart ⟨0⟩ ∧
      h.issued ⟨0⟩ = [RowId.ofNat 0, RowId.ofNat 1] ∧
      (h.completed ⟨0⟩).map Row.id = [RowId.ofNat 1, RowId.ofNat 0] ∧ q.closed = true))
    (by decide +kernel :
      (play Late.hurrying () #[] Late.settings Late.hurried Late.opening 20).any _ = true)
  obtain ⟨hnested, hapart, hissued, hcompleted, hclosed⟩ := of_decide_eq_true hp
  have hids : (h.issued ⟨0⟩).length < 2 ^ 32 := by
    rw [hissued]
    decide
  obtain ⟨hnodup, hopen⟩ := completed_once Late.hurrying hr hq hapart hids
  exact ⟨h, q, hr, hq, hnested, hapart, hids, hcompleted, hnodup, hclosed, hopen hclosed⟩

end Host

/-! A component that has its own segment tried while it renders, beside one that waits forever. -/

namespace Restless

structure State where
  renders : Nat := 0
  waiting : List (Callback Bool) := []

def wakeAll {α : Type} (next : Script Bool State α) : Script Bool State α :=
  .get fun s => .put { s with waiting := [] }
    (s.waiting.foldr (fun callback rest => .call (.invoke callback) fun _ => rest) next)

/-- The code `true` is the restless component, which waits twice and then has a pass run. -/
def user : UserCode Bool State where
  render code _ _ :=
    if code.code then
      .get fun s => .put { s with renders := s.renders + 1 }
        (if s.renders < 2 then .done (.suspended (.custom code))
        else if s.renders = 2 then
          wakeAll (.call (.performWork ⟨0⟩) fun _ => .done (.ready (.string "x")))
        else .done (.ready (.string "x")))
    else .done (.suspended (.custom code))
  load _ := .done (.ready .null)
  toModel _ := .done .null
  await code onFulfilled onRejected :=
    if code.code then
      .get fun s => .put { s with waiting := s.waiting ++ [onFulfilled, onRejected] } (.done ())
    else .done ()
  react _ := .done ()
  metadata _ _ := .done (.ok .null)
  destination _ _ := .done .pass

def settings : RequestSettings Bool where
  modules := .manifest .empty

def model : Model Bool :=
  .array [.element
      { renderable := .function "Again" ⟨true, .empty⟩, key := none, props := .empty },
    .element
      { renderable := .function "Slow" ⟨false, .empty⟩, key := none, props := .empty }]

def script : Script Bool State Unit :=
  .call (.startWork ⟨0⟩) fun _ => .call .runNext fun _ =>
    wakeAll (.call .runNext fun _ => .done ())

theorem makes_wakeAll {α : Type} {next : Script Bool State α}
    (h : next.Makes fun _ => True) : (wakeAll next).Makes fun _ => True := by
  intro s
  change (s.waiting.foldr _ next).Makes fun _ => True
  induction s.waiting with
  | nil => exact h
  | cons callback rest ih => exact ⟨trivial, fun _ _ => ih⟩

theorem script_makes : script.Makes fun _ => True :=
  ⟨trivial, fun _ _ => ⟨trivial, fun _ _ => makes_wakeAll ⟨trivial, fun _ _ => trivial⟩⟩⟩

end Restless

namespace Host

/-- The restless component is completed and written twice, so that the request is closed while the
other segment is open. -/
theorem completed_twice :
    ∃ (h : Host Bool Restless.State) (q : Request Bool),
      Reachable Restless.user (fun _ => True) h ∧ h.requests[0]? = some q ∧
      (h.completed ⟨0⟩).map Row.id = [RowId.ofNat 0, RowId.ofNat 1, RowId.ofNat 1] ∧
      (h.handed ⟨0⟩).map Row.id = [RowId.ofNat 0, RowId.ofNat 1, RowId.ofNat 1] ∧
      q.closed = true ∧ q.openIds = [RowId.ofNat 2] := by
  obtain ⟨h, q, hr, hq, hp⟩ := exists_reachable (r := ⟨0⟩) (n := 20) Restless.user
    Restless.script_makes
    (fun h q => decide
      ((h.completed ⟨0⟩).map Row.id = [RowId.ofNat 0, RowId.ofNat 1, RowId.ofNat 1] ∧
        (h.handed ⟨0⟩).map Row.id = [RowId.ofNat 0, RowId.ofNat 1, RowId.ofNat 1] ∧
        q.closed = true ∧ q.openIds = [RowId.ofNat 2]))
    (by decide +kernel :
      (play Restless.user {} #[] Restless.settings Restless.model Restless.script 20).any _ = true)
  exact ⟨h, q, hr, hq, of_decide_eq_true hp⟩

end Host
end TreeStream
