import TreeStream.Proofs.Delivering
import TreeStream.Proofs.Meanwhile

/-!
# The pause after a row that is not to be followed

Once the destination has taken a row and wants no more, the flow is stopped, and a later flush
begins only after the work was started or the flow was resumed. A reader of the log can tell:
between such an answer and the beginning of a later batch there is a start or a resumption.
-/

namespace TreeStream

variable {κ σ : Type} {W : World κ} {r : RequestId} {g g' : Hand κ} {v v' : View κ}
  {q q' : Request κ}

namespace Event

/-- The destination has wanted no more rows, and since then the work was not started and the flow
was not resumed. -/
def pausedIn : List Event → Bool
  | [] => false
  | called _ (.write _) (.ok false) :: _ => true
  | started _ :: _ => false
  | flowed _ _ :: _ => false
  | _ :: log => pausedIn log

/-- The work of the request is started, or its flow is resumed. -/
def Restarts (r : RequestId) : Event → Prop
  | started r' => r' = r
  | flowed r' _ => r' = r
  | _ => False

/-- No batch begins in a pause. -/
def BeginsUnpaused (log : List Event) : Prop :=
  ∀ later earlier r n, log = later ++ .calling r .begin n :: earlier → pausedIn earlier = false

theorem pausedIn_called (r : RequestId) (c : SinkCall) (answer : Except RenderError Bool)
    (log : List Event) :
    pausedIn (.called r c answer :: log) = (c.isSaturation answer || pausedIn log) := by
  cases c with
  | write row =>
    cases answer with
    | error e => rfl
    | ok welcome => cases welcome <;> rfl
  | _ => cases answer <;> rfl

theorem IsAside.pausedIn {e : Event} (h : e.IsAside) (log : List Event) :
    pausedIn (e :: log) = pausedIn log := by
  cases e <;> first | rfl | exact h.elim

/-- A pause lasts as long as nothing restarts the request. -/
theorem exists_restarts {r : RequestId} {between log : List Event}
    (hof : ∀ e ∈ between, e.request? = some r) (hpaused : pausedIn log = true)
    (h : pausedIn (between ++ log) = false) : ∃ e ∈ between, e.Restarts r := by
  induction between with
  | nil => cases hpaused.symm.trans h
  | cons e between ih =>
    have hlater := ih fun e he => hof e (List.mem_cons_of_mem _ he)
    have hmem : (∃ e ∈ between, e.Restarts r) → ∃ e' ∈ e :: between, e'.Restarts r :=
      fun ⟨e', he', hr⟩ => ⟨e', List.mem_cons_of_mem _ he', hr⟩
    have he : e.request? = some r := hof e List.mem_cons_self
    cases e with
    | started r' => exact ⟨_, List.mem_cons_self, Option.some.inj he⟩
    | flowed r' nested => exact ⟨_, List.mem_cons_self, Option.some.inj he⟩
    | called r' c answer =>
      rw [List.cons_append, pausedIn_called, Bool.or_eq_false_iff] at h
      exact hmem (hlater h.2)
    | _ => exact hmem (hlater h)

theorem BeginsUnpaused.cons {log : List Event} {e : Event} (h : BeginsUnpaused log)
    (he : ∀ r n, e = .calling r .begin n → pausedIn log = false) : BeginsUnpaused (e :: log) := by
  intro later earlier r n hlog
  cases later with
  | nil =>
    cases hlog
    exact he r n rfl
  | cons e' later =>
    cases hlog
    exact h later earlier r n rfl

end Event

/-- In a pause the flow has stopped or is about to stop, and no flush is about to begin. -/
structure Pauses (g : Hand κ) (log : List Event) (q : Request κ) : Prop where
  stopped : Event.pausedIn log = true →
    q.flowing = false ∨ ∃ d, g.delivery = some d ∧ d.halting = true
  fresh : ∀ d, g.delivery = some d → d.stage = .fresh → Event.pausedIn log = false
  begins : Event.BeginsUnpaused log

namespace Pauses

/-- The flush goes on as it was, and an event may have been told. -/
theorem around {log : List Event} (h : Pauses g v.log q) (hd : g'.delivery = g.delivery)
    (hbegins : Event.BeginsUnpaused log)
    (hpaused : Event.pausedIn log = true → Event.pausedIn v.log = true)
    (hflowing : Event.pausedIn log = true → q.flowing = false → q'.flowing = false) :
    Pauses g' log q' := by
  refine ⟨fun hp => ?_, fun d hd' hs => ?_, hbegins⟩
  · rw [hd]
    exact (h.stopped (hpaused hp)).imp_left (hflowing hp)
  · rw [hd] at hd'
    exact Bool.eq_false_iff.mpr fun hp => nomatch (h.fresh d hd' hs).symm.trans (hpaused hp)

/-- Nothing is told, and the flow goes on or stays stopped as it was. -/
theorem silent (h : Pauses g v.log q) (hd : g'.delivery = g.delivery)
    (hflowing : q'.flowing = q.flowing) : Pauses g' v.log q' :=
  h.around hd h.begins id fun _ hf => hflowing.trans hf

theorem tell {e : Event} (h : Pauses g v.log q) (hd : g'.delivery = g.delivery)
    (hflowing : q'.flowing = q.flowing) (hbegin : ∀ r n, e ≠ .calling r .begin n)
    (hpaused : ∀ log, Event.pausedIn (e :: log) = Event.pausedIn log) :
    Pauses g' (e :: v.log) q' :=
  h.around hd (h.begins.cons fun r n he => absurd he (hbegin r n)) (fun hp => hpaused _ ▸ hp)
    fun _ hf => hflowing.trans hf

/-- The flush comes further, and the destination has answered nothing. -/
theorem move {log : List Event} (h : Pauses g log q) {d d' : Delivery}
    (hd : g.delivery = some d) (hd' : g'.delivery = some d')
    (hstage : d'.stage = .fresh → d.stage = .fresh) (hhalting : d'.halting = d.halting)
    (hflowing : q'.flowing = q.flowing) : Pauses g' log q' := by
  refine ⟨fun hp => ?_, fun d₁ hd₁ hs => ?_, h.begins⟩
  · rcases h.stopped hp with hf | ⟨d₁, hd₁, hh⟩
    · exact .inl (hflowing.trans hf)
    · cases hd.symm.trans hd₁
      exact .inr ⟨d', hd', hhalting.trans hh⟩
  · cases hd'.symm.trans hd₁
    exact h.fresh d hd (hstage hs)

end Pauses

theorem Ambient.pauses (h : Ambient W r g v g' v') (hq : v.request = some q)
    (hq' : v'.request = some q') (ih : Pauses g v.log q) : Pauses g' v'.log q' := by
  cases h with
  | create settings model hnone => cases hnone.symm.trans hq
  | adjust hq₀ =>
    cases hq.symm.trans hq₀
    cases hq'
    exact ih.silent rfl rfl
  | say e he =>
    cases hq.symm.trans hq'
    refine ih.tell rfl rfl (fun r n heq => ?_) he.pausedIn
    subst heq
    exact he
  | _ =>
    cases hq.symm.trans hq'
    exact ih.silent rfl rfl

theorem Visit.pauses (h : Visit r g v g' v') (hq : v.request = some q) (hq' : v'.request = some q')
    (ih : Pauses g v.log q) : Pauses g' v'.log q' := by
  cases h with
  | enter hq₀ | leave hq₀ | pop hq₀ =>
    cases hq.symm.trans hq₀
    cases hq'
    exact ih.silent rfl rfl
  | ask | lostPing =>
    cases hq.symm.trans hq'
    exact ih.silent rfl rfl
  | start hq₀ =>
    cases hq.symm.trans hq₀
    cases hq'
    exact ih.around rfl (.cons (.cons ih.begins nofun) nofun) Bool.noConfusion
      Bool.noConfusion
  | flowAgain hq₀ =>
    cases hq.symm.trans hq₀
    cases hq'
    exact ih.around rfl (.cons ih.begins nofun) Bool.noConfusion Bool.noConfusion
  | ping hq₀ =>
    cases hq.symm.trans hq₀
    cases hq'
    exact ih.tell rfl rfl nofun fun _ => rfl
  | firstPing hq₀ =>
    cases hq.symm.trans hq₀
    cases hq'
    exact ih.around rfl (.cons (.cons ih.begins nofun) nofun) id fun _ => id

theorem Flushing.pauses (h : Flushing r g v g' v') (hq : v.request = some q)
    (hq' : v'.request = some q') (hf : q.flushing = true ↔ g.delivery ≠ none)
    (ih : Pauses g v.log q) : Pauses g' v'.log q' := by
  cases h with
  | openOwn hq₀ =>
    cases hq'
    exact ⟨fun hp => Bool.noConfusion hp, fun _ _ _ => rfl, ih.begins.cons nofun⟩
  | openLast hq₀ hidle hb hs ha hflowing =>
    cases hq.symm.trans hq₀
    cases hq'
    have hunpaused : Event.pausedIn v.log = false := Bool.eq_false_iff.mpr fun hp => by
      rcases ih.stopped hp with hstopped | ⟨d, hd, -⟩
      · cases hflowing.symm.trans hstopped
      · cases (Hand.delivery_eq_none hf hidle).symm.trans hd
    exact ⟨fun hp => (nomatch hunpaused.symm.trans hp), fun _ _ _ => hunpaused, ih.begins⟩
  | take kind hq₀ hd =>
    cases hq.symm.trans hq₀
    cases hq'
    exact ih.move hd rfl id rfl (by cases kind <;> rfl)
  | runDry kind hq₀ hd =>
    cases hq.symm.trans hq'
    cases kind <;> exact ih.move hd rfl id rfl rfl
  | calling c hq₀ hd hc =>
    cases hq.symm.trans hq'
    have hunpaused : c = .begin → Event.pausedIn v.log = false := by
      rintro rfl
      exact ih.fresh _ hd hc.2.1
    have hpaused : Event.pausedIn (.calling r c q.pending :: v.log) = Event.pausedIn v.log := rfl
    refine (Pauses.mk ?_ ?_ (ih.begins.cons ?_) : Pauses g _ q).move hd rfl id rfl rfl
    · exact fun hp => ih.stopped (hpaused ▸ hp)
    · exact fun d hd hs => hpaused.trans (ih.fresh d hd hs)
    · intro r' n heq
      cases heq
      exact hunpaused rfl
  | called c answer hd hc =>
    cases hq.symm.trans hq'
    refine ⟨fun hp => ?_, fun d hd' hs => ?_, ih.begins.cons nofun⟩
    · rw [Event.pausedIn_called, Bool.or_eq_true_iff] at hp
      rcases hp with hsaturated | hp
      · exact .inr ⟨_, rfl, hsaturated⟩
      · refine .inl ((ih.stopped hp).resolve_right ?_)
        rintro ⟨d, hd', hh⟩
        cases hd.symm.trans hd'
        cases hc.halting.symm.trans hh
    · cases hd'
      exact absurd hs (Delivery.stage_called hc answer)
  | stop hq₀ hd =>
    cases hq'
    exact ⟨fun _ => .inl rfl, fun d hd' hs => by cases hd'; exact (ih.fresh _ hd hs :), ih.begins⟩
  | unfinished hq₀ hd =>
    cases hq.symm.trans hq'
    exact ih.move hd rfl BatchStage.noConfusion rfl rfl
  | close hq₀ hd =>
    cases hq.symm.trans hq₀
    cases hq'
    exact ih.move hd rfl id rfl rfl
  | shutOwn hq₀ hd hdone | shutLast hq₀ hd hdone =>
    cases hq.symm.trans hq₀
    cases hq'
    have hnone : ∀ d, g.delivery = some d → d.halting = false := by
      rintro d hd'
      cases hd.symm.trans hd'
      exact hdone.clear.halting
    refine ⟨fun hp => .inl ((ih.stopped hp).resolve_right ?_), fun d hd' => ?_, ih.begins⟩
    · rintro ⟨d, hd', hh⟩
      exact nomatch (hnone d hd').symm.trans hh
    · cases hd'

theorem Working.pauses (h : Working W r g v g' v') (hq : v.request = some q)
    (hq' : v'.request = some q') (ih : Pauses g v.log q) : Pauses g' v'.log q' := by
  cases h with
  | begin hq₀ =>
    cases hq.symm.trans hq₀
    cases hq'
    exact ih.tell rfl rfl nofun fun _ => rfl
  | skip | attempt | leave =>
    cases hq.symm.trans hq'
    exact ih.tell rfl rfl nofun fun _ => rfl
  | value | layer | wait | finish =>
    cases hq.symm.trans hq'
    exact ih.silent rfl rfl
  | memo _ _ _ hq₀ =>
    cases hq.symm.trans hq₀
    cases hq'
    exact ih.silent rfl rfl
  | defer _ _ _ _ hq₀ | complete _ _ _ _ hq₀ | fail _ _ _ hq₀ =>
    cases hq.symm.trans hq₀
    cases hq'
    exact ih.tell rfl rfl nofun fun _ => rfl
  | report _ _ _ _ hq₀ =>
    cases hq.symm.trans hq₀
    cases hq'
    exact ih.around rfl (.cons (.cons ih.begins nofun) nofun) id fun _ => id

theorem Course.pauses (h : Course W r g v) (hq : v.request = some q) : Pauses g v.log q := by
  refine Course.induct (P := fun g v q => Pauses g v.log q) ?_ ?_ h hq
  · intro g v settings model hnew
    obtain ⟨log, hlog, haside⟩ := hnew.log
    have hunpaused : ∀ log : List Event, (∀ e ∈ log, e.IsAside) →
        Event.pausedIn log = false ∧ Event.BeginsUnpaused log := by
      intro log haside
      induction log with
      | nil => exact ⟨rfl, fun later _ _ _ h => by simp at h⟩
      | cons e log ih =>
        have he := haside e List.mem_cons_self
        obtain ⟨hp, hb⟩ := ih fun e he => haside e (List.mem_cons_of_mem _ he)
        refine ⟨(he.pausedIn log).trans hp, hb.cons fun r n heq => ?_⟩
        subst heq
        exact he.elim
    obtain ⟨hp, hb⟩ := hunpaused log haside
    rw [hlog]
    refine ⟨fun h => (nomatch hp.symm.trans h), fun d hd => ?_, hb.cons nofun⟩
    cases hnew.delivery.symm.trans hd
  · intro g v g' v' q q' hc ht hq hq' ih
    cases ht with
    | ambient h => exact h.pauses hq hq' ih
    | visit h => exact h.pauses hq hq' ih
    | flushing h => exact h.pauses hq hq' (hc.coherent.flushing q hq) ih
    | working h => exact h.pauses hq hq' ih

namespace Host

/-- In every state that a session reaches: if a later batch begins after the destination has wanted
no more rows, the work was started or the flow was resumed in between. -/
theorem Reachable.restarts {user : UserCode κ σ} {h : Host κ σ}
    (hr : Reachable user (fun _ => True) h) {r : RequestId}
    {later between earlier : List Event} {row : Row} {pending : Nat}
    (hj : h.journal = later ++ .calling r .begin pending :: between ++
      .called r (.write row) (.ok false) :: earlier) :
    ∃ e ∈ between, e.Restarts r := by
  have hlog : (h.view r).log =
      later.filter (Event.isOf r) ++ .calling r .begin pending :: between.filter (Event.isOf r) ++
        .called r (.write row) (.ok false) :: earlier.filter (Event.isOf r) := by
    simp [view, hj, Event.isOf, Event.request?]
  have hcourse := hr.course_any r
  obtain ⟨q, hq⟩ : ∃ q, (h.view r).request = some q := by
    refine Option.ne_none_iff_exists'.mp fun hnone => ?_
    have hmem : .called r (.write row) (.ok false) ∈ (h.view r).log := by simp [hlog]
    exact hcourse.asides hnone hmem
  have hunpaused := (hcourse.pauses hq).begins _ _ _ _ (hlog.trans (List.append_assoc _ _ _))
  obtain ⟨e, he, hrestarts⟩ := Event.exists_restarts
    (fun e he => by simpa [Event.isOf] using (List.mem_filter.mp he).2) rfl hunpaused
  exact ⟨e, (List.mem_filter.mp he).1, hrestarts⟩

/-! ## What is done in a pause -/

def Kept.rest (r : RequestId) : Kept κ r where
  holds q := q.flowing = false
  same q q' := q'.flowing = q.flowing
  tells e := ∃ c pending, e = .calling r c pending
  refl _ := rfl
  trans h h' := h'.trans h
  stays h h' := h.trans h'
  background := by
    rintro e he ⟨c, pending, rfl⟩
    exact he rfl
  adjust hf q := by
    obtain ⟨sink, fatal, held, pinged, he, -⟩ := hf q
    rw [he]

variable {user : UserCode κ σ} {h h' h₁ : Host κ σ}

/-- Work on segments does not make a request flow, and leaves the destination alone. -/
theorem respectsWork_rest (breaks : Event → Prop) (r : RequestId) :
    RespectsWork (Unless (κ := κ) (σ := σ) breaks (Keeps (Kept.rest r))) r where
  change h f hf := .of_silent rfl <| .update fun q _ => by
    obtain ⟨nextId, segments, pending, pinged, modelRows, errorRows, he⟩ := hf q
    rw [he]
    rfl
  tell h e he _ := ⟨[e], rfl, fun _ => .tell fun ⟨c, pending, heq⟩ => by subst heq; exact he⟩

/-- Until the request is restarted, whatever is done leaves its destination alone. -/
theorem frames_rest (user : UserCode κ σ) (r : RequestId) :
    Frames user r (Unless (Event.Restarts r) (Keeps (Kept.rest r))) := by
  have F : Frames user r Extends := frames_extends user r
  have F' : Surrounds r (Unless (κ := κ) (σ := σ) (Event.Restarts r) (Keeps (Kept.rest r))) :=
    Unless.surrounds (Keeps.surrounds _)
  have hvisit : ∀ {α : Type} {m : HostM κ σ α},
      Respects (Unless (Event.Restarts r) (Keeps (Kept.rest r))) m →
      Respects (Unless (Event.Restarts r) (Keeps (Kept.rest r))) (running r m) :=
    F'.running fun _ _ => .of_silent rfl (.update fun _ _ => rfl)
  refine
    { F' with
      visit := hvisit
      start := Unless.start rfl
      flow := fun n _ => hvisit (Unless.flow user (fun _ => rfl) n)
      pass := fun n α k hcall hk => hvisit (F'.bind ?_ hk) }
  have hw := respectsWork_rest (κ := κ) (σ := σ) (Event.Restarts r) r
  refine F'.passOf (fun _ => hw.steps.record trivial nofun rfl) (F'.takePinged hw.steps)
    (fun s => F'.retry hcall hw s n) ?_
  intro h result h' hrun
  obtain ⟨⟨q, h₁⟩, hreq, hrest⟩ := Option.bind_eq_some_iff.mp hrun
  obtain ⟨hq, rfl⟩ := request_of_run hreq
  cases hflowing : q.flowing with
  | true =>
    simp only [hflowing, if_true] at hrest
    obtain ⟨events, hj⟩ := F.flush (F.perform n) (respectsFlush_extends r) n hrest
    exact ⟨events, hj.symm, fun _ =>
      .of_not hq fun hstopped => nomatch hflowing.symm.trans hstopped⟩
  | false =>
    simp only [hflowing, Bool.false_eq_true, if_false] at hrest
    exact F'.pure _ hrest

/-- Once the flow has stopped, the destination is left alone for as long as a session goes on
without starting the work or resuming the flow. -/
theorem unasked_of_steps {may : HostCall κ → Prop} {q : Request κ}
    (hsteps : Relation.ReflTransGen (Step user may) h h') (hq : h.requests[r.index]? = some q)
    (hstopped : q.flowing = false) {events : List Event} (hj : h'.journal = events ++ h.journal)
    (hquiet : ∀ e ∈ events, ¬ e.Restarts r) :
    ∀ c pending, .calling r c pending ∉ events := by
  have F : Frames user r (Unless (Event.Restarts r) (Keeps (Kept.rest r))) := frames_rest user r
  obtain ⟨⟨events', hj', hsilent⟩, -⟩ := (F.steps hsteps hq).holds hj hquiet q hq hstopped
  rw [List.append_cancel_right (hj.symm.trans hj')]
  exact fun c pending hmem => hsilent _ hmem ⟨c, pending, rfl⟩

end Host
end TreeStream
