import TreeStream.Proofs.Frames

/-!
# A warning for each replacement

Under strict checks a request warns of every custom value that it replaces, just before the code of
the value runs, and at no other time. The serializer asks for its effects in this order
(`position_warns`), and nothing comes between the two events, so they stand side by side in the
journal, whatever else the session does.
-/

namespace TreeStream

variable {κ σ α β : Type}

/-! ## Walks that warn -/

def Effect.IsSubstitution : Effect κ → Prop
  | warn _ => True
  | toModel _ => True
  | _ => False

/-- Under strict checks the walk asks for the model of a custom value just after it has warned of
it; otherwise it never warns. -/
inductive Walk.Warns (strict : Bool) : Walk κ α → Prop
  | done (a : α) : Warns strict (.done a)
  | stuck : Warns strict .stuck
  | warned (hstrict : strict = true) (parent : Container κ) (key : String)
    (code : Closure κ (Model κ)) {next : Model κ → Walk κ α}
    (h : ∀ model, Warns strict (next model)) :
    Warns strict
      (.ask (.warn (Refusal.customWarning parent key)) fun _ => .ask (.toModel code) next)
  | silent (hstrict : strict = false) (code : Closure κ (Model κ)) {next : Model κ → Walk κ α}
    (h : ∀ model, Warns strict (next model)) : Warns strict (.ask (.toModel code) next)
  | plain {e : Effect κ} (he : ¬ e.IsSubstitution) {next : e.Reply → Walk κ α}
    (h : ∀ reply, Warns strict (next reply)) : Warns strict (.ask e next)

abbrev RefusableWalk.Warns (strict : Bool) (w : RefusableWalk κ α) : Prop := Walk.Warns strict w.run

namespace Walk.Warns

variable {strict : Bool}

theorem bind {w : Walk κ α} {k : α → Walk κ β} (hw : w.Warns strict)
    (hk : ∀ a, (k a).Warns strict) : (w >>= k).Warns strict := by
  induction hw with
  | done a => exact hk a
  | stuck => exact .stuck
  | warned hstrict parent key code _ ih => exact .warned hstrict parent key code ih
  | silent hstrict code _ ih => exact .silent hstrict code ih
  | plain he _ ih => exact .plain he ih

theorem ask {e : Effect κ} (he : ¬ e.IsSubstitution) : (Walk.ask e Walk.done).Warns strict :=
  .plain he fun reply => .done reply

end Walk.Warns

namespace RefusableWalk.Warns

variable {strict : Bool} {w : RefusableWalk κ α}

theorem pure (a : α) : RefusableWalk.Warns strict (Pure.pure a : RefusableWalk κ α) :=
  Walk.Warns.done _

theorem throw (e : RenderError) :
    RefusableWalk.Warns strict (MonadExcept.throw e : RefusableWalk κ α) :=
  Walk.Warns.done _

theorem bind {k : α → RefusableWalk κ β} (hw : RefusableWalk.Warns strict w)
    (hk : ∀ a, RefusableWalk.Warns strict (k a)) : RefusableWalk.Warns strict (w >>= k) := by
  refine Walk.Warns.bind hw fun outcome => ?_
  cases outcome with
  | ok a => exact hk a
  | error e => exact .done _

theorem lift {w : Walk κ α} (hw : w.Warns strict) :
    RefusableWalk.Warns strict (ExceptT.lift w : RefusableWalk κ α) :=
  Walk.Warns.bind hw fun _ => .done _

theorem map {f : α → β} (hw : RefusableWalk.Warns strict w) :
    RefusableWalk.Warns strict (f <$> w) := by
  refine Walk.Warns.bind hw fun outcome => ?_
  cases outcome with
  | ok a => exact .done _
  | error e => exact .done _

end RefusableWalk.Warns

namespace Serializer

open RefusableWalk (Warns)

variable {strict : Bool}

theorem resolveElement_warns (e : Element κ (Model κ)) :
    (resolveElement Walk.code e).Warns strict := by
  obtain ⟨renderable, key, props⟩ := e
  unfold resolveElement
  induction renderable generalizing key with
  | function name code => exact .ask id
  | forwardRef name code => exact .ask id
  | memo inner ih => exact ih none
  | _ => exact .done _

theorem overItems_warns {f : String → α → RefusableWalk κ (Option Json)}
    (hf : ∀ k a, Warns strict (f k a)) (i : Nat) (xs : List α) :
    Warns strict (overItems f i xs) := by
  induction xs generalizing i with
  | nil => exact .pure _
  | cons x xs ih => exact .bind (hf _ x) fun j => .bind (ih (i + 1)) fun js => .pure _

theorem overFields_warns {f : String → α → RefusableWalk κ (Option Json)}
    (hf : ∀ k a, Warns strict (f k a)) (xs : List (String × α)) :
    Warns strict (overFields f xs) := by
  induction xs with
  | nil => exact .pure _
  | cons x xs ih => exact .bind (hf _ _) fun j => .bind ih fun js => .pure _

theorem moduleSlot_warns {walk : Model κ → RefusableWalk κ (Option Json)}
    (hwalk : ∀ value, Warns strict (walk value)) (found : Except RenderError Json) :
    Warns strict (moduleSlot (Walk.context strict) walk found) := by
  cases found with
  | ok json => exact .map (hwalk _)
  | error e => exact .map (.lift (.ask id))

theorem dataSlot_warns {walk : Model κ → RefusableWalk κ (Option Json)}
    (hwalk : ∀ value, Warns strict (walk value)) (load : Closure κ (Model κ))
    (outcome : Resolution κ (Model κ)) :
    Warns strict (dataSlot (Walk.context strict) walk load outcome) := by
  cases outcome with
  | ready value => exact .map (hwalk value)
  | suspended t => exact .map (.lift (.ask id))
  | failed e => exact .map (.lift (.ask id))

/-- The serializer warns of a custom value just before it replaces it. -/
theorem position_warns (n : Nat) (parent : Container κ) (key : String) (substituted : Bool)
    (value : Model κ) :
    Warns strict (position Walk.code (Walk.context strict) n parent key substituted value) := by
  induction n generalizing parent key substituted value with
  | zero => exact Walk.Warns.stuck
  | succ n ih =>
    cases value with
    | custom typeName code =>
      cases substituted with
      | true => exact .throw _
      | false =>
        cases strict with
        | true => exact Walk.Warns.warned rfl parent key code fun model => ih _ _ _ _
        | false => exact Walk.Warns.silent rfl code fun model => ih _ _ _ _
    | element e =>
      refine .bind (.lift (resolveElement_warns e)) fun outcome => ?_
      cases outcome with
      | ready next => exact ih _ _ _ next
      | failed e => exact .throw e
      | suspended t => exact .bind (.lift (.ask id)) fun id => .pure _
    | array items =>
      exact .bind (overItems_warns (fun k x => ih _ _ _ x) 0 items) fun js => .pure _
    | record fields =>
      exact .bind (overFields_warns (fun k x => ih _ _ _ x) fields.entries) fun js => .pure _
    | serverBlock block =>
      refine .bind (.lift (.ask id)) fun found => ?_
      refine .bind (moduleSlot_warns (fun value => ih _ _ _ _) found) fun module => ?_
      refine .bind (.lift (.ask id)) fun outcome => ?_
      exact .bind (dataSlot_warns (fun value => ih _ _ _ _) block.load outcome) fun data => .pure _
    | _ => exact Walk.Warns.done _

theorem serialize_warns (n : Nat) (value : Model κ) :
    Warns strict (serialize Walk.code (Walk.context strict) n value) :=
  .bind (position_warns n _ _ _ value) fun _ => .pure _

end Serializer

/-! ## Journals with warnings -/

def Event.IsSubstitutionOf (r : RequestId) (e : Event) : Prop :=
  e.IsSubstitution ∧ e.request? = some r

/-- What such an event tells: the text of a warning, or that code of a custom value runs. -/
def Event.substitution? (r : RequestId) : Event → Option (Option String)
  | warning r' text => if r' = r then some (some text) else none
  | ran r' .toModel _ => if r' = r then some none else none
  | _ => none

/-- What the journal tells of replacements for the request, newest first: each has its warning just
before it, or there are no warnings. While the request is not there, nothing is replaced. -/
inductive Paired (κ : Type) (r : RequestId) (warns : Option Bool) : List Event → Prop
  | nil : Paired κ r warns []
  | other {e log} (he : ¬ e.IsSubstitutionOf r) (h : Paired κ r warns log) :
    Paired κ r warns (e :: log)
  | warned {log} (hwarns : warns = some true) (parent : Container κ) (key : String) (inPass : Bool)
    (h : Paired κ r warns log) :
    Paired κ r warns
      (.ran r .toModel inPass :: .warning r (Refusal.customWarning parent key) :: log)
  | silent {log} (hwarns : warns = some false) (inPass : Bool) (h : Paired κ r warns log) :
    Paired κ r warns (.ran r .toModel inPass :: log)

namespace Paired

variable {r : RequestId} {warns : Option Bool} {log log' : List Event}

theorem append (h : Paired κ r warns log) (h' : Paired κ r warns log') :
    Paired κ r warns (log ++ log') := by
  induction h with
  | nil => exact h'
  | other he _ ih => exact .other he ih
  | warned hwarns parent key inPass _ ih => exact .warned hwarns parent key inPass ih
  | silent hwarns inPass _ ih => exact .silent hwarns inPass ih

/-- What was told before the request was there fits any checks. -/
theorem of_none (h : Paired κ r none log) : Paired κ r warns log := by
  induction h with
  | nil => exact .nil
  | other he _ ih => exact .other he ih
  | warned hwarns => cases hwarns
  | silent hwarns => cases hwarns

theorem substitution?_eq_none {e : Event} (he : ¬ e.IsSubstitutionOf r) :
    e.substitution? r = none := by
  have hother : ∀ r', (e.IsSubstitution ∧ e.request? = some r') → r' ≠ r := by
    rintro r' ⟨hsub, hr⟩ rfl
    exact he ⟨hsub, hr⟩
  cases e with
  | warning r' text => exact if_neg (hother r' ⟨trivial, rfl⟩)
  | ran r' step inPass =>
    cases step with
    | toModel => exact if_neg (hother r' ⟨trivial, rfl⟩)
    | _ => rfl
  | _ => rfl

/-- Warnings and replacements in turn, oldest first, and each warning shows the place where a custom
value stood. -/
theorem texts (h : Paired κ r (some true) log) :
    ∃ texts : List String,
      log.reverse.filterMap (Event.substitution? r) =
        texts.flatMap (fun text => [some text, none]) ∧
      ∀ text ∈ texts, ∃ (parent : Container κ) (key : String),
        text = Refusal.customWarning parent key := by
  induction h with
  | nil => exact ⟨[], rfl, nofun⟩
  | other he _ ih =>
    obtain ⟨texts, htexts, hshown⟩ := ih
    refine ⟨texts, ?_, hshown⟩
    rw [List.reverse_cons, List.filterMap_append, htexts, List.filterMap_cons_none
      (substitution?_eq_none he), List.filterMap_nil, List.append_nil]
  | warned _ parent key inPass _ ih =>
    obtain ⟨texts, htexts, hshown⟩ := ih
    refine ⟨texts ++ [Refusal.customWarning parent key], ?_, ?_⟩
    · simp [htexts, Event.substitution?]
    · intro text htext
      rcases List.mem_append.mp htext with hold | hnew
      · exact hshown text hold
      · exact ⟨parent, key, List.mem_singleton.mp hnew⟩
  | silent hwarns => cases hwarns

theorem not_warned (h : Paired κ r (some false) log) (text : String) : .warning r text ∉ log := by
  induction h with
  | nil => exact nofun
  | other he _ ih =>
    intro hmem
    rcases List.mem_cons.mp hmem with rfl | hmem
    · exact he ⟨trivial, rfl⟩
    · exact ih hmem
  | warned hwarns => cases hwarns
  | silent _ _ _ ih =>
    intro hmem
    rcases List.mem_cons.mp hmem with hnew | hmem
    · cases hnew
    · exact ih hmem

end Paired

namespace Host

variable {r : RequestId} {h h' : Host κ σ} {user : UserCode κ σ}

/-- What decides whether the request warns. -/
def checks (h : Host κ σ) (r : RequestId) : Option (Bool × Bool) :=
  h.requests[r.index]?.map fun q => (q.settings.strict, q.settings.reportsWarnings)

def warns? (h : Host κ σ) (r : RequestId) : Option Bool := (h.checks r).map fun c => c.1 && c.2

/-- The checks stay as they are, and what is told of replacements fits them. -/
def Warned (r : RequestId) (h h' : Host κ σ) : Prop :=
  h'.checks r = h.checks r ∧
    ∃ events, h'.journal = events ++ h.journal ∧ Paired κ r (h.warns? r) events

theorem Warned.of_eq (hreq : h'.requests[r.index]? = h.requests[r.index]?)
    (hj : h'.journal = h.journal) : Warned r h h' := by
  refine ⟨?_, [], hj, .nil⟩
  rw [checks, hreq]
  rfl

theorem Warned.trans {h₁ h₂ h₃ : Host κ σ} (h₁₂ : Warned r h₁ h₂) (h₂₃ : Warned r h₂ h₃) :
    Warned r h₁ h₃ := by
  obtain ⟨hchecks, events, hj, hpaired⟩ := h₁₂
  obtain ⟨hchecks', events', hj', hpaired'⟩ := h₂₃
  have hwarns : h₂.warns? r = h₁.warns? r := congrArg _ hchecks
  refine ⟨hchecks'.trans hchecks, events' ++ events, ?_, ?_⟩
  · rw [hj', hj, List.append_assoc]
  · exact (hwarns ▸ hpaired').append hpaired

theorem Warned.tell {e : Event} (he : ¬ e.IsSubstitutionOf r) : Warned r h (h.tell e) :=
  ⟨rfl, [e], rfl, .other he .nil⟩

theorem Warned.update {f : Request κ → Request κ}
    (hf : ∀ q, (f q).settings.strict = q.settings.strict ∧
      (f q).settings.reportsWarnings = q.settings.reportsWarnings) : Warned r h (h.update r f) := by
  refine ⟨?_, [], rfl, .nil⟩
  cases hq : h.requests[r.index]? with
  | none => rw [checks, checks, requests_update_missing hq, hq]
  | some q =>
    obtain ⟨hstrict, hreports⟩ := hf q
    rw [checks, checks, requests_update_self hq, hq, Option.map_some, Option.map_some, hstrict,
      hreports]

theorem surrounds_warned (r : RequestId) : Surrounds r (Warned (κ := κ) (σ := σ) r) where
  refl h := .of_eq rfl rfl
  trans := .trans
  same := .of_eq
  tell h e he := .tell fun hsub => by
    obtain ⟨hsub, hr⟩ := hsub
    cases e with
    | warning r' text => exact he hr
    | ran r' step inPass => exact he hr
    | _ => exact hsub
  adjust h f hf := .update fun q => by
    obtain ⟨sink, fatal, held, pinged, he, -⟩ := hf q
    rw [he]
    exact ⟨rfl, rfl⟩

theorem respectsSteps_warned (r : RequestId) : RespectsSteps (Warned (κ := κ) (σ := σ) r) r where
  change h f hf := .update fun q => by
    obtain ⟨nextId, segments, pending, pinged, modelRows, errorRows, he⟩ := hf q
    rw [he]
    exact ⟨rfl, rfl⟩
  tell _ _ _ he _ := .tell fun hsub => he hsub.1

theorem respectsFlush_warned (r : RequestId) : RespectsFlush (Warned (κ := κ) (σ := σ) r) r where
  change h f hf := .update fun q => by
    obtain ⟨pending, modelRows, errorRows, flowing, closed, flushing, he⟩ := hf q
    rw [he]
    exact ⟨rfl, rfl⟩
  calling _ _ _ := .tell fun hsub => hsub.1
  called _ _ _ := .tell fun hsub => hsub.1

/-- Under strict checks a custom value is warned of, if warnings are reported, and then its code
runs. -/
theorem Warned.replace {parent : Container κ} {key : String}
    (hwarn : warn r (Refusal.customWarning parent key) h = some ((), h')) {reports : Bool}
    (hchecks : h.checks r = some (true, reports)) :
    Warned r h (h'.tell (.ran r .toModel h'.inPass)) := by
  have hwarns : h.warns? r = some reports := by
    rw [warns?, hchecks, Option.map_some, Bool.true_and]
  obtain ⟨q, hq, hsame⟩ := Option.map_eq_some_iff.mp hchecks
  obtain ⟨-, rfl⟩ := Prod.mk.inj hsame
  rw [warn, run_bind, run_request hq, Option.bind_some] at hwarn
  cases hreports : q.settings.reportsWarnings with
  | true =>
    rw [hreports] at hwarn hwarns
    cases hwarn
    exact ⟨rfl, [.ran r .toModel h.inPass, .warning r (Refusal.customWarning parent key)], rfl,
      .warned hwarns parent key _ .nil⟩
  | false =>
    rw [hreports] at hwarn hwarns
    cases hwarn
    exact ⟨rfl, [.ran r .toModel h.inPass], rfl, .silent hwarns _ .nil⟩

/-- A walk of the request with the checks that the request has. -/
theorem walk_warned {n : Nat} (hcall : CallsRespect (Warned r) (perform user n)) {strict : Bool}
    {w : Walk κ α} (hw : w.Warns strict) {a : α}
    (hrun : w.perform (codeEffects user (perform user n) r) (context user (perform user n) r strict)
      (fun _ => failure) h = some (a, h')) {reports : Bool}
    (hchecks : h.checks r = some (strict, reports)) : Warned r h h' := by
  have F := surrounds_warned (κ := κ) (σ := σ) r
  have hmodel : ∀ (code : Code κ) (h₁ : Host κ σ) (model : Model κ) (h₂ : Host κ σ),
      (user.toModel code).run (perform user n) h₁ = some (model, h₂) → Warned r h₁ h₂ :=
    fun code h₁ model h₂ hcode => F.script hcall _ hcode
  induction hw generalizing h with
  | done b =>
    cases hrun
    exact F.refl _
  | stuck => cases hrun
  | plain he hnext ih =>
    obtain ⟨⟨reply, h₁⟩, heffect, hrest⟩ := Option.bind_eq_some_iff.mp hrun
    have hfirst : Warned r h h₁ := by
      refine F.plainEffect hcall (respectsSteps_warned r) strict ?_ ?_ heffect
      · rintro text rfl
        exact he trivial
      · rintro code rfl
        exact he trivial
    exact hfirst.trans (ih reply hrest (hfirst.1.trans hchecks))
  | silent hstrict code hnext ih =>
    obtain ⟨⟨model, h₁⟩, heffect, hrest⟩ := Option.bind_eq_some_iff.mp hrun
    have hwarns : h.warns? r = some false := by
      rw [warns?, hchecks, hstrict]
      rfl
    have htold : Warned r h (h.tell (.ran r .toModel h.inPass)) :=
      ⟨rfl, [.ran r .toModel h.inPass], rfl, .silent hwarns _ .nil⟩
    have hfirst : Warned r h h₁ := htold.trans (hmodel code _ _ _ heffect)
    exact hfirst.trans (ih model hrest (hfirst.1.trans hchecks))
  | warned hstrict parent key code hnext ih =>
    obtain ⟨⟨⟨⟩, h₁⟩, hwarn, hrest⟩ := Option.bind_eq_some_iff.mp hrun
    obtain ⟨⟨model, h₂⟩, heffect, hrest⟩ := Option.bind_eq_some_iff.mp hrest
    have htold : Warned r h (h₁.tell (.ran r .toModel h₁.inPass)) :=
      .replace hwarn (hstrict ▸ hchecks)
    have hfirst : Warned r h h₂ := htold.trans (hmodel code _ _ _ heffect)
    exact hfirst.trans (ih model hrest (hfirst.1.trans hchecks))

theorem frames_warned (user : UserCode κ σ) (r : RequestId) : Frames user r (Warned r) := by
  have F := surrounds_warned (κ := κ) (σ := σ) r
  have hmodify : ∀ {f : Request κ → Request κ}, (∀ q, (f q).settings = q.settings) →
      Respects (Warned r) (modifyRequest r f : HostM κ σ Unit) := by
    intro f hf h a h' hrun
    cases hrun
    exact .update fun q => by rw [hf q]; exact ⟨rfl, rfl⟩
  have hrecord : ∀ {e : Event}, ¬ e.IsSubstitutionOf r →
      Respects (Warned r) (record e : HostM κ σ Unit) := by
    intro e he h a h' hrun
    cases hrun
    exact .tell he
  have hvisit : ∀ {α : Type} {m : HostM κ σ α}, Respects (Warned r) m →
      Respects (Warned r) (Host.running r m) :=
    F.running fun h f => .update fun q => ⟨rfl, rfl⟩
  have hsteps := respectsSteps_warned (κ := κ) (σ := σ) r
  have hflush := respectsFlush_warned (κ := κ) (σ := σ) r
  refine
    { F with
      visit := hvisit
      start := F.bind (hmodify fun _ => rfl) fun _ =>
        F.bind (hrecord fun hsub => hsub.1) fun _ => F.schedulePass
      flow := fun n hcall => hvisit (F.bind F.request fun _ =>
        F.bind (hrecord fun hsub => hsub.1) fun _ =>
          F.bind (hmodify fun _ => rfl) fun _ => F.flush hcall hflush n)
      pass := fun n α k hcall hk => hvisit (F.bind ?_ hk) }
  refine F.passOf (fun _ => hsteps.record trivial nofun rfl) (F.takePinged hsteps) (fun s => ?_)
    (F.flushFlowing hcall hflush n)
  refine F.retryOf hcall hsteps s n fun value => F.finishOf hsteps s ?_
  intro h outcome h' hrun
  obtain ⟨⟨q, h₀⟩, hreq, hwalk⟩ := Option.bind_eq_some_iff.mp hrun
  obtain ⟨hq, rfl⟩ := request_of_run hreq
  dsimp only at hwalk
  rw [Serializer.serialize_perform absorbs_hostM n value] at hwalk
  exact walk_warned hcall (Serializer.serialize_warns n value) hwalk (by rw [checks, hq]; rfl)

/-- The journal of every session fits the checks of every request. -/
theorem Reachable.paired (hreach : Reachable user (fun _ => True) h) (r : RequestId) :
    Paired κ r (h.warns? r) h.journal := by
  obtain ⟨start, outcomes, hsteps⟩ := hreach
  induction hsteps with
  | refl => exact .nil
  | @tail h₁ h₂ _ hstep ih =>
    rcases Frames.made_or_respects hstep with ⟨settings, model, r', h₃, hnew, hrequests, hj⟩ | hR
    · rw [run_newRequest] at hnew
      cases hnew
      rw [hj]
      refine .other (fun hsub => hsub.1) ?_
      cases hq : h₁.requests[r.index]? with
      | none =>
        have hnone : h₁.warns? r = none := by rw [warns?, checks, hq]; rfl
        exact (hnone ▸ ih).of_none
      | some q =>
        have hlt : r.index < h₁.requests.size := (Array.getElem?_eq_some_iff.mp hq).1
        have hsame : h₂.warns? r = h₁.warns? r := by
          rw [warns?, warns?, checks, checks, hrequests]
          simp only [requests_tell, Array.getElem?_push, Nat.ne_of_lt hlt, if_false]
        exact hsame ▸ ih
    · obtain ⟨hchecks, events, hj, hpaired⟩ := hR (frames_warned user r)
      have hwarns : h₂.warns? r = h₁.warns? r := congrArg _ hchecks
      rw [hj, hwarns]
      exact hpaired.append ih

end Host
end TreeStream
