import TreeStream.Proofs.Quiescence

/-!
# The rounds of a request

Segments that are pinged wait until the next pass, which takes all of them and tries them in the
order of their pings. A reader who follows the log of a request therefore knows at any time which
segments wait and which the pass under way has left to try. Such a reader also knows when a pass has
to be queued: when work is started, and when a segment begins to wait while none does.
-/

namespace TreeStream

variable {κ σ : Type} {W : World κ} {r : RequestId} {g g' : Hand κ} {v v' : View κ}
  {q q' : Request κ}

/-! ## Reading a log -/

/-- What a reader of a log knows: the segments that wait, those left to the pass under way, and how
often a segment began to wait while none did. -/
structure Rounds where
  waiting : List SegmentId := [⟨0⟩]
  batch : List SegmentId := []
  wakes : Nat := 0

namespace Rounds

/-- One event; nothing if a segment is tried whose turn it is not, or if a pass begins before all
segments of the last one were tried. -/
def step (t : Rounds) : Event → Option Rounds
  | .pinged _ s => some
    { t with
      waiting := t.waiting ++ [s]
      wakes := if t.waiting = [] then t.wakes + 1 else t.wakes }
  | .began _ _ => if t.batch = [] then some { t with waiting := [], batch := t.waiting } else none
  | .retried _ s => if t.batch.head? = some s then some { t with batch := t.batch.tail } else none
  | _ => some t

/-- A log, newest event first. -/
def read : List Event → Option Rounds
  | [] => some {}
  | e :: log => (read log).bind fun t => t.step e

end Rounds

namespace Event

def isOfRounds : Event → Bool
  | pinged _ _ => true
  | began _ _ => true
  | retried _ _ => true
  | started _ => true
  | scheduled _ => true
  | _ => false

def isBegin : Event → Bool
  | began _ _ => true
  | _ => false

def isScheduling : Event → Bool
  | scheduled _ => true
  | _ => false

def isFailure : Event → Bool
  | called _ _ answer => !answer.isOk
  | _ => false

def pinged? : Event → Option SegmentId
  | pinged _ s => some s
  | _ => none

def retried? : Event → Option SegmentId
  | retried _ s => some s
  | _ => none

def segmentsTold (tells : Event → Option SegmentId) (log : List Event) : List SegmentId :=
  log.reverse.filterMap tells

theorem segmentsTold_cons (tells : Event → Option SegmentId) (e : Event) (log : List Event) :
    segmentsTold tells (e :: log) = segmentsTold tells log ++ (tells e).toList := by
  cases h : tells e <;> simp [segmentsTold, h]

theorem IsAside.isOfRounds {e : Event} (h : e.IsAside) : e.isOfRounds = false := by
  cases e <;> first | rfl | exact h.elim

end Event

namespace Rounds

open Event

theorem read_cons {log : List Event} {t : Rounds} (h : read log = some t) (e : Event) :
    read (e :: log) = t.step e := by
  rw [read, h, Option.bind_some]

/-- What is read of a log was read of its beginning before. -/
theorem exists_of_read {later earlier : List Event} {t : Rounds}
    (h : read (later ++ earlier) = some t) : ∃ t₀, read earlier = some t₀ := by
  induction later generalizing t with
  | nil => exact ⟨t, h⟩
  | cons e later ih =>
    obtain ⟨t₁, hread, -⟩ := Option.bind_eq_some_iff.mp h
    exact ih hread

/-- The segments tried are those that waited when the pass began, in their order, and no event but
the begin of a pass moves a segment that waits. -/
theorem step_batch {t t' : Rounds} {e : Event} (h : t.step e = some t')
    (hbegin : e.isBegin = false) :
    (retried? e).toList ++ t'.batch = t.batch ∧ t'.waiting = t.waiting ++ (pinged? e).toList := by
  cases e with
  | began r n => cases hbegin
  | retried r s =>
    obtain ⟨hhead, hdone⟩ := Option.ite_none_right_eq_some.mp h
    cases hdone
    obtain ⟨rest, hbatch⟩ := List.head?_eq_some_iff.mp hhead
    constructor
    · rw [hbatch]
      rfl
    · exact (List.append_nil _).symm
  | pinged r s =>
    cases h
    exact ⟨rfl, rfl⟩
  | _ =>
    cases h
    exact ⟨rfl, (List.append_nil _).symm⟩

theorem exists_of_isBegin {e : Event} (h : e.isBegin = true) : ∃ r n, e = .began r n := by
  cases e with
  | began r n => exact ⟨r, n, rfl⟩
  | _ => cases h

theorem step_begin {t t' : Rounds} {r : RequestId} {n : Bool} (h : t.step (.began r n) = some t') :
    t.batch = [] ∧ t'.batch = t.waiting ∧ t'.waiting = [] := by
  obtain ⟨hbatch, hdone⟩ := Option.ite_none_right_eq_some.mp h
  cases hdone
  exact ⟨hbatch, rfl, rfl⟩

/-- No ping is lost, made twice or moved: the segments that were tried, those left to the pass under
way and those that wait are the root and then the segments that were pinged, in their order. -/
theorem order {log : List Event} {t : Rounds} (h : read log = some t) :
    segmentsTold retried? log ++ t.batch ++ t.waiting = ⟨0⟩ :: segmentsTold pinged? log := by
  induction log generalizing t with
  | nil =>
    cases h
    rfl
  | cons e log ih =>
    obtain ⟨t₀, hread, hstep⟩ := Option.bind_eq_some_iff.mp h
    have ih := ih hread
    rw [segmentsTold_cons, segmentsTold_cons]
    cases hbegin : e.isBegin with
    | true =>
      obtain ⟨r, n, rfl⟩ := exists_of_isBegin hbegin
      obtain ⟨hbatch, hbatch', hwaiting'⟩ := step_begin hstep
      rw [hbatch, List.append_nil] at ih
      rw [hbatch', hwaiting', List.append_nil, ← List.cons_append, ← ih]
      simp [retried?, pinged?]
    | false =>
      obtain ⟨hbatch, hwaiting⟩ := step_batch hstep hbegin
      rw [hwaiting, ← List.cons_append, ← ih, ← hbatch]
      simp only [List.append_assoc]

theorem order_of_begin {during earlier : List Event} {n : Bool} {t : Rounds}
    (h : read (during ++ .began r n :: earlier) = some t)
    (hbegin : ∀ e ∈ during, e.isBegin = false) :
    segmentsTold retried? (during ++ .began r n :: earlier) ++ t.batch =
      ⟨0⟩ :: segmentsTold pinged? earlier := by
  induction during generalizing t with
  | nil =>
    obtain ⟨t₀, hread, hstep⟩ := Option.bind_eq_some_iff.mp h
    obtain ⟨hbatch, hbatch', -⟩ := step_begin hstep
    have := order hread
    rw [hbatch, List.append_nil] at this
    rw [List.nil_append, segmentsTold_cons, hbatch', ← this]
    simp [retried?]
  | cons e during ih =>
    obtain ⟨t₀, hread, hstep⟩ := Option.bind_eq_some_iff.mp h
    have ih := ih hread fun e he => hbegin e (List.mem_cons_of_mem _ he)
    obtain ⟨hbatch, -⟩ := step_batch hstep (hbegin e List.mem_cons_self)
    rw [List.cons_append, segmentsTold_cons, List.append_assoc, hbatch, ih]

theorem step_quiet (t : Rounds) {e : Event} (he : e.isOfRounds = false) : t.step e = some t := by
  cases e <;> first | rfl | cases he

end Rounds

/-! ## Courses go round by round -/

/-- The reader knows which segments wait and which are left to try, and each pass that was queued
had a reason. -/
structure Rounds.Shows (t : Rounds) (g : Hand κ) (log : List Event) (q : Request κ) : Prop where
  waiting : t.waiting = q.pinged
  batch : t.batch = g.passes.flatMap PassState.batch
  scheduled : log.countP Event.isScheduling = log.countP Event.isStart + t.wakes

def Follows (g : Hand κ) (log : List Event) (q : Request κ) : Prop :=
  ∃ t, Rounds.read log = some t ∧ t.Shows g log q

theorem Follows.quiet {log : List Event} (events : List Event) (h : Follows g log q)
    (hp : g'.passes.flatMap PassState.batch = g.passes.flatMap PassState.batch)
    (hq : q'.pinged = q.pinged) (he : ∀ e ∈ events, e.isOfRounds = false) :
    Follows g' (events ++ log) q' := by
  induction events with
  | nil =>
    obtain ⟨t, hread, hshows⟩ := h
    refine ⟨t, hread, hshows.waiting.trans hq.symm, hshows.batch.trans hp.symm, hshows.scheduled⟩
  | cons e events ih =>
    obtain ⟨t, hread, hshows⟩ := ih fun e he' => he e (List.mem_cons_of_mem _ he')
    have hquiet := he e List.mem_cons_self
    refine ⟨t, ?_, hshows.waiting, hshows.batch, ?_⟩
    · rw [List.cons_append, Rounds.read_cons hread, t.step_quiet hquiet]
    · have hs : e.isScheduling = false := by cases e <;> first | rfl | cases hquiet
      have hw : e.isStart = false := by cases e <;> first | rfl | cases hquiet
      simpa [hs, hw] using hshows.scheduled

theorem Follows.retried {log : List Event} (h : Follows g log q) {b b' : PassState κ}
    {s : SegmentId} (hb : g.passes = [b]) (hs : b.batch = s :: b'.batch) (hp : g'.passes = [b']) :
    Follows g' (.retried r s :: log) q := by
  obtain ⟨t, hread, hshows⟩ := h
  have hbatch : t.batch = s :: b'.batch := by
    rw [hshows.batch, hb, List.flatMap_singleton, hs]
  refine ⟨{ t with batch := t.batch.tail }, ?_, hshows.waiting, ?_, ?_⟩
  · rw [Rounds.read_cons hread]
    exact if_pos (by rw [hbatch]; rfl)
  · rw [hp, List.flatMap_singleton, hbatch, List.tail_cons]
  · simpa [Event.isScheduling, Event.isStart] using hshows.scheduled

theorem Ambient.follows (h : Ambient W r g v g' v') (hq : v.request = some q)
    (hq' : v'.request = some q') (ih : Follows g v.log q) : Follows g' v'.log q' := by
  cases h with
  | create settings model hnone => cases hnone.symm.trans hq
  | adjust hq₀ =>
    cases hq.symm.trans hq₀
    cases hq'
    exact ih.quiet [] rfl rfl (by simp)
  | say e he =>
    cases hq.symm.trans hq'
    exact ih.quiet [e] rfl rfl (by simpa using he.isOfRounds)
  | _ =>
    cases hq.symm.trans hq'
    exact ih.quiet [] rfl rfl (by simp)

theorem Visit.follows (h : Visit r g v g' v') (hq : v.request = some q)
    (hq' : v'.request = some q') (ih : Follows g v.log q) : Follows g' v'.log q' := by
  cases h with
  | ask | lostPing =>
    cases hq.symm.trans hq'
    exact ih.quiet [] rfl rfl (by simp)
  | enter hq₀ | leave hq₀ | pop hq₀ =>
    cases hq.symm.trans hq₀
    cases hq'
    exact ih.quiet [] rfl rfl (by simp)
  | flowAgain hq₀ =>
    cases hq.symm.trans hq₀
    cases hq'
    exact ih.quiet [_] rfl rfl (by simp [Event.isOfRounds])
  | start hq₀ =>
    cases hq.symm.trans hq₀
    cases hq'
    obtain ⟨t, hread, hshows⟩ := ih
    refine ⟨t, ?_, hshows.waiting, hshows.batch, ?_⟩
    · rw [Rounds.read, Rounds.read_cons hread]
      rfl
    · have := hshows.scheduled
      simp only [List.countP_cons, Event.isScheduling, Event.isStart, if_true, Bool.false_eq_true,
        if_false]
      omega
  | @ping _ s hq₀ ha hs hne =>
    cases hq.symm.trans hq₀
    cases hq'
    obtain ⟨t, hread, hshows⟩ := ih
    refine ⟨{ t with waiting := t.waiting ++ [s] }, ?_, ?_, hshows.batch, ?_⟩
    · rw [Rounds.read_cons hread, Rounds.step, if_neg (by rwa [hshows.waiting])]
    · rw [hshows.waiting]
    · simpa [Event.isScheduling, Event.isStart] using hshows.scheduled
  | @firstPing _ s hq₀ ha hs hnil =>
    cases hq.symm.trans hq₀
    cases hq'
    obtain ⟨t, hread, hshows⟩ := ih
    have hwaiting : t.waiting = [] := hshows.waiting.trans hnil
    refine ⟨{ t with waiting := [s], wakes := t.wakes + 1 }, ?_, rfl, hshows.batch, ?_⟩
    · rw [Rounds.read, Rounds.read_cons hread, Rounds.step, if_pos hwaiting, hwaiting]
      rfl
    · have := hshows.scheduled
      simp only [List.countP_cons, Event.isScheduling, Event.isStart, if_true, Bool.false_eq_true,
        if_false]
      omega

theorem Flushing.follows (h : Flushing r g v g' v') (hq : v.request = some q)
    (hq' : v'.request = some q') (ih : Follows g v.log q) : Follows g' v'.log q' := by
  cases h with
  | runDry | unfinished =>
    cases hq.symm.trans hq'
    exact ih.quiet [] rfl rfl (by simp)
  | calling | called =>
    cases hq.symm.trans hq'
    exact ih.quiet [_] rfl rfl (by simp [Event.isOfRounds])
  | openOwn hq₀ =>
    cases hq.symm.trans hq₀
    cases hq'
    exact ih.quiet [_] rfl rfl (by simp [Event.isOfRounds])
  | take kind hq₀ =>
    cases hq.symm.trans hq₀
    cases hq'
    exact ih.quiet [] rfl (by cases kind <;> rfl) (by simp)
  | openLast hq₀ | stop hq₀ | close hq₀ | shutOwn hq₀ =>
    cases hq.symm.trans hq₀
    cases hq'
    exact ih.quiet [] rfl rfl (by simp)
  | shutLast hq₀ hd hdone ho hb hs =>
    cases hq.symm.trans hq₀
    cases hq'
    exact ih.quiet [] (by simp [hb, hs]) rfl (by simp)

theorem Working.follows (h : Working W r g v g' v') (hq : v.request = some q)
    (hq' : v'.request = some q') (hlone : ∀ {b l}, g.passes = b :: l → l = [])
    (hbegin : ∀ n, v'.log = .began r n :: v.log → g.passes = []) (ih : Follows g v.log q) :
    Follows g' v'.log q' := by
  cases h with
  | begin hq₀ =>
    cases hq.symm.trans hq₀
    cases hq'
    obtain ⟨t, hread, hshows⟩ := ih
    have hnil := hbegin _ rfl
    refine ⟨{ t with waiting := [], batch := t.waiting }, ?_, rfl, ?_, ?_⟩
    · rw [Rounds.read_cons hread]
      apply if_pos
      rw [hshows.batch, hnil, List.flatMap_nil]
    · rw [hnil, List.flatMap_singleton, hshows.waiting]
    · simpa [Event.isScheduling, Event.isStart] using hshows.scheduled
  | skip hb hs | attempt hb hs =>
    cases hq.symm.trans hq'
    obtain rfl := hlone hb
    exact ih.retried hb hs rfl
  | leave hb =>
    cases hq.symm.trans hq'
    exact ih.quiet [_] (by rw [hb]; rfl) rfl (by simp [Event.isOfRounds])
  | value hb | layer hb | wait hb =>
    cases hq.symm.trans hq'
    exact ih.quiet [] (by rw [hb]; rfl) rfl (by simp)
  | memo hb ha hv hq₀ =>
    cases hq.symm.trans hq₀
    cases hq'
    exact ih.quiet [] rfl rfl (by simp)
  | defer query hb ha hv hq₀ =>
    cases hq.symm.trans hq₀
    cases hq'
    exact ih.quiet [_] (by rw [hb]; rfl) rfl (by simp [Event.isOfRounds])
  | report e hb ha hv hq₀ =>
    cases hq.symm.trans hq₀
    cases hq'
    exact ih.quiet [_, _] (by rw [hb]; rfl) rfl (by simp [Event.isOfRounds])
  | complete hb ha hv hw hq₀ | fail hb ha hw hq₀ =>
    cases hq.symm.trans hq₀
    cases hq'
    exact ih.quiet [_] (by rw [hb]; rfl) rfl (by simp [Event.isOfRounds])
  | finish hb hs =>
    cases hq.symm.trans hq'
    exact ih.quiet [] (by simp [hb, hs]) rfl (by simp)

theorem Created.follows (h : Created r g v) (settings : RequestSettings κ) (model : Model κ) :
    Follows g v.log (.ofModel settings model) := by
  obtain ⟨log, hlog, hasides⟩ := h.log
  have hquiet : ∀ e ∈ v.log, e.isOfRounds = false := by
    intro e he
    rw [hlog] at he
    rcases List.mem_cons.mp he with rfl | he
    · rfl
    · exact (hasides e he).isOfRounds
  have hempty : Follows g [] (.ofModel settings model) :=
    ⟨{}, rfl, rfl, by rw [h.passes]; rfl, rfl⟩
  rw [← List.append_nil v.log]
  exact hempty.quiet v.log rfl rfl hquiet

/-- As long as no pass is nested, a request goes round by round. -/
theorem Course.follows (h : Course W r g v) (hcalm : v.Calm r) (hq : v.request = some q) :
    Follows g v.log q := by
  refine Course.induct (P := fun g v q => v.Calm r → Follows g v.log q)
    (fun settings model hnew _ => hnew.follows settings model) ?_ h hq hcalm
  intro g v g' v' q q' hc ht hq hq' ih hcalm
  have hbefore := ht.calm hcalm
  have ih := ih hbefore
  cases ht with
  | ambient h => exact h.follows hq hq' ih
  | visit h => exact h.follows hq hq' ih
  | flushing h => exact h.follows hq hq' ih
  | working h =>
    refine h.follows hq hq' (hc.passes_eq hbefore) (fun n hlog => ?_) ih
    cases h with
    | begin hq₀ hm hfresh =>
      exact (hc.calls_of_begin hq₀ hfresh fun he => hcalm (by simp [← he])).2.1
    | _ => simp at hlog

/-! ## Waking up -/

namespace Host

/-- A work pass of the request is queued. -/
def HasPass (h : Host κ σ) (r : RequestId) : Prop :=
  (∃ work ∈ h.queue, work.isPassOf r = true) ∨ ∃ task ∈ h.tasks, task.isPassOf r = true

instance (h : Host κ σ) (r : RequestId) : Decidable (h.HasPass r) :=
  inferInstanceAs (Decidable (_ ∨ _))

theorem hasPass_of_passes {h : Host κ σ} (hpos : 0 < (h.view r).passes) : h.HasPass r := by
  rcases Nat.add_pos_iff_pos_or_pos.mp hpos with hqueue | htasks
  · exact .inl (List.countP_pos_iff.mp hqueue)
  · exact .inr (List.countP_pos_iff.mp htasks)

/-- With a destination that does not fail and a flow that is resumed in time, rows that are queued
wait for the flow or have a pass coming. -/
theorem rows_can_wait {user : UserCode κ σ} {h : Host κ σ}
    (hr : Reachable user (fun _ => True) h) {q : Request κ}
    (hq : h.requests[r.index]? = some q) (hu : h.Unnested r)
    (hsound : ∀ c e, .called r c (.error e) ∉ h.journal) (htimely : (h.view r).Timely r) :
    q.queued = [] ∨ q.flowing = false ∨ h.HasPass r := by
  have hcourse := hr.course_any r
  have hsound' : (h.view r).Sound := by
    intro r' c e hmem
    obtain rfl := eq_of_mem_log hmem rfl
    exact hsound c e (mem_journal_of_log hmem)
  rcases (hcourse.delivers hu.calm hsound' htimely hq).moving with
    hnil | (hstopped | hpos) | hpass | hflush
  · exact .inl hnil
  · exact .inr (.inl hstopped)
  · exact .inr (.inr (hasPass_of_passes hpos))
  · exact absurd rfl hpass
  · exact absurd rfl hflush

/-- In every state that a session without nested passes reaches, whatever user code and destinations
do besides: the segments that were tried and those that are pinged are the root and then the
segments of all pings, in the order of the pings, and what was tried until a moment of some pass had
been pinged before that pass began. Once work was started or a pass has begun, a pass is queued if
segments are pinged. If the destination has not failed and has not resumed the flow itself, a pass is
also queued if rows are queued and flow. Passes are queued once for each start of work and once for
each ping that finds no segment pinged. -/
theorem pings_served (user : UserCode κ σ) {h : Host κ σ}
    (hr : Reachable user (fun _ => True) h) {r : RequestId} {q : Request κ}
    (hq : h.requests[r.index]? = some q) (hu : h.Unnested r) :
    Event.segmentsTold Event.retried? (h.view r).log ++ q.pinged =
        ⟨0⟩ :: Event.segmentsTold Event.pinged? (h.view r).log ∧
      (∀ later during earlier n, (h.view r).log = later ++ (during ++ .began r n :: earlier) →
        (∀ e ∈ during, e.isBegin = false) →
        Event.segmentsTold Event.retried? (during ++ .began r n :: earlier) <+:
          ⟨0⟩ :: Event.segmentsTold Event.pinged? earlier) ∧
      ((.started r ∈ h.journal ∨ ∃ n, .began r n ∈ h.journal) → q.pinged ≠ [] → h.HasPass r) ∧
      (.flowed r true ∉ h.journal → (∀ c e, .called r c (.error e) ∉ h.journal) →
        q.flowing = true → q.queued ≠ [] → h.HasPass r) ∧
      ∃ t, Rounds.read (h.view r).log = some t ∧ t.waiting = q.pinged ∧
        (h.view r).log.countP Event.isScheduling =
          (h.view r).log.countP Event.isStart + t.wakes := by
  have hcourse := hr.course_any r
  obtain ⟨t, hread, hshows⟩ := hcourse.follows hu.calm (q := q) hq
  refine ⟨?_, ?_, ?_, ?_, t, hread, hshows.waiting, hshows.scheduled⟩
  · have horder := Rounds.order hread
    rwa [hshows.batch, hshows.waiting, List.flatMap_nil, List.append_nil] at horder
  · intro later during earlier n hlog hbegin
    rw [hlog] at hread
    obtain ⟨t₀, hread₀⟩ := Rounds.exists_of_read hread
    exact ⟨t₀.batch, Rounds.order_of_begin hread₀ hbegin⟩
  · intro hengaged hpinged
    apply hasPass_of_passes
    have hany : (h.view r).log.any Event.isEngagement = true := by
      rw [List.any_eq_true]
      rcases hengaged with hstarted | ⟨n, hbegan⟩
      · exact ⟨_, mem_log_of_journal hstarted rfl, rfl⟩
      · exact ⟨_, mem_log_of_journal hbegan rfl, rfl⟩
    exact hcourse.scheduled hq hany hpinged
  · intro hflowed hsound hflowing hqueued
    have htimely : (h.view r).Timely r := by
      intro later earlier hlog
      refine absurd (mem_journal_of_log (r := r) ?_) hflowed
      rw [hlog]
      exact List.mem_append_right _ List.mem_cons_self
    rcases rows_can_wait hr hq hu hsound htimely with hnil | hstopped | hpass
    · exact absurd hnil hqueued
    · cases hflowing.symm.trans hstopped
    · exact hpass

end Host

namespace Late

def sated : UserCode Unit Unit where
  __ := user
  destination _ c :=
    match c with
    | .write _ => .done (.answer false)
    | _ => .done .pass

/-- The promise is fulfilled, one more pass is run, and work is started once more. -/
def restarting : Script Unit Unit Unit := do
  opening
  .call (.settle ⟨0⟩ (.ok (.string "done"))) fun _ => .call .runNext fun _ =>
    .call (.startWork ⟨0⟩) fun _ => .done ()

theorem restarting_makes : restarting.Makes fun _ => True :=
  ⟨trivial, fun _ _ => ⟨trivial, fun _ _ => ⟨trivial, fun _ _ => ⟨trivial, fun _ _ =>
    ⟨trivial, fun _ _ => ⟨trivial, fun _ _ => trivial⟩⟩⟩⟩⟩⟩

end Late

namespace Host

/-- The row of the late component is not wanted, and flows again with the pass that is queued. -/
theorem pings_served_sated :
    ∃ (h : Host Unit Unit) (q : Request Unit),
      Reachable Late.sated (fun _ => True) h ∧ h.requests[0]? = some q ∧ h.Unnested ⟨0⟩ ∧
      .flowed ⟨0⟩ true ∉ h.journal ∧ (∀ c e, .called ⟨0⟩ c (.error e) ∉ h.journal) ∧
      q.flowing = true ∧ q.queued ≠ [] ∧ q.pinged = [] ∧
      Event.segmentsTold Event.retried? (h.view ⟨0⟩).log = [⟨0⟩, ⟨1⟩] ∧
      Event.segmentsTold Event.pinged? (h.view ⟨0⟩).log = [⟨1⟩] ∧ h.HasPass ⟨0⟩ := by
  obtain ⟨h, q, hr, hq, hp⟩ := exists_reachable (r := ⟨0⟩) (n := 20) Late.sated
    Late.restarting_makes
    (fun h q => decide (h.Unnested ⟨0⟩ ∧ .flowed ⟨0⟩ true ∉ h.journal ∧
      h.journal.all (fun e => !e.isFailure) = true ∧ q.flowing = true ∧ q.queued ≠ [] ∧
      q.pinged = [] ∧ Event.segmentsTold Event.retried? (h.view ⟨0⟩).log = [⟨0⟩, ⟨1⟩]))
    (by decide +kernel :
      (play Late.sated () #[] Late.guarded Late.model Late.restarting 20).any _ = true)
  obtain ⟨hu, hflowed, hall, hflowing, hqueued, hpinged, hretried⟩ := of_decide_eq_true hp
  have hsound : ∀ c e, .called ⟨0⟩ c (.error e) ∉ h.journal := by
    intro c e hmem
    cases List.all_eq_true.mp hall _ hmem
  obtain ⟨horder, -, -, hrows, -⟩ := pings_served Late.sated hr hq hu
  refine ⟨h, q, hr, hq, hu, hflowed, hsound, hflowing, hqueued, hpinged, hretried, ?_, ?_⟩
  · rw [hretried, hpinged] at horder
    exact (List.cons.inj horder).2.symm
  · exact hrows hflowed hsound hflowing hqueued

end Host
end TreeStream
