import TreeStream.Proofs.Dialogues
import TreeStream.Proofs.Meanwhile
import TreeStream.Proofs.Pausing

/-!
# What a flush hands over

A flush takes rows off each queue until one of them is refused: the destination fails to take it, or
takes it and wants no more. What the destination does besides does not change this as long as it
does not reenter the request, which the journal would tell.
-/

namespace TreeStream

variable {κ σ : Type}

abbrev Answered := SinkCall × Except RenderError Bool

namespace Answered

def failure? (a : Answered) : Option RenderError :=
  match a.2 with
  | .error e => some e
  | .ok _ => none

/-- How a batch went: the first failure counts. -/
def outcome (answers : List Answered) : Except RenderError Unit :=
  match answers.findSome? failure? with
  | some e => .error e
  | none => .ok ()

theorem outcome_append (as bs : List Answered) :
    outcome (as ++ bs) = (outcome as).bind fun _ => outcome bs := by
  unfold outcome
  rw [List.findSome?_append]
  cases as.findSome? failure? <;> rfl

theorem outcome_ok_cons (c : SinkCall) (welcome : Bool) (answers : List Answered) :
    outcome ((c, .ok welcome) :: answers) = outcome answers :=
  rfl

end Answered

structure Write where
  row : Row
  answer : Except RenderError Bool

namespace Write

def told (w : Write) : Answered := (.write w.row, w.answer)

def fails (w : Write) : Bool := !w.answer.isOk

def saturates (w : Write) : Bool := SinkCall.isSaturation (.write w.row) w.answer

theorem outcome_told (ws : List Write) :
    ws.any fails = true ↔ ∃ e, Answered.outcome (ws.map told) = .error e := by
  induction ws with
  | nil => simp [Answered.outcome]
  | cons w ws ih =>
    obtain ⟨row, e | welcome⟩ := w
    · exact ⟨fun _ => ⟨e, rfl⟩, fun _ => rfl⟩
    · rw [List.map_cons, told, Answered.outcome_ok_cons, ← ih]
      rfl

end Write

/-- Rows are handed over one after the other until one is refused; the rest stays. -/
inductive Drains : List Row → List Write → List Row → Prop
  | dry : Drains [] [] []
  | refused {row rest answer} (h : answer ≠ .ok true) : Drains (row :: rest) [⟨row, answer⟩] rest
  | welcome {row rows ws rest} (h : Drains rows ws rest) :
    Drains (row :: rows) (⟨row, .ok true⟩ :: ws) rest

/-- What is handed over is the shortest prefix that ends with a refused row, or everything. -/
theorem drains_iff {rows rest : List Row} {ws : List Write} :
    Drains rows ws rest ↔ rows = ws.map Write.row ++ rest ∧
      (∀ w ∈ ws.dropLast, w.answer = .ok true) ∧
      (rest = [] ∨ ∃ w, ws.getLast? = some w ∧ w.answer ≠ .ok true) := by
  constructor
  · intro h
    induction h with
    | dry => exact ⟨rfl, nofun, .inl rfl⟩
    | refused hrefused => exact ⟨rfl, nofun, .inr ⟨_, rfl, hrefused⟩⟩
    | @welcome row rows ws rest h ih =>
      obtain ⟨rfl, hwelcome, hend⟩ := ih
      refine ⟨rfl, fun w hw => ?_, hend.imp_right fun ⟨w, hlast, hrefused⟩ => ⟨w, ?_, hrefused⟩⟩
      · cases ws with
        | nil => cases hw
        | cons w' ws => exact (List.mem_cons.mp hw).elim (fun he => he ▸ rfl) (hwelcome w)
      · rw [List.getLast?_cons, hlast]
        rfl
  · rintro ⟨rfl, hwelcome, hend⟩
    induction ws with
    | nil =>
      obtain rfl : rest = [] := hend.resolve_right fun ⟨w, hlast, _⟩ => nomatch hlast
      exact .dry
    | cons w ws ih =>
      obtain ⟨row, answer⟩ := w
      by_cases hanswer : answer = .ok true
      · subst hanswer
        refine .welcome (ih (fun w hw => hwelcome w ?_) ?_)
        · cases ws with
          | nil => cases hw
          | cons w' ws => exact List.mem_cons_of_mem _ hw
        · refine hend.imp_right fun ⟨w, hlast, hrefused⟩ => ⟨w, ?_, hrefused⟩
          rw [List.getLast?_cons] at hlast
          cases hws : ws.getLast? with
          | none =>
            rw [hws] at hlast
            cases hlast
            exact absurd rfl hrefused
          | some w' => rwa [hws] at hlast
      · cases ws with
        | nil => exact .refused hanswer
        | cons w' ws => exact absurd (hwelcome _ List.mem_cons_self) hanswer

namespace Event

/-- Someone works on the request, or has it written. -/
def Enters (r : RequestId) : Event → Prop
  | started r' => r' = r
  | flowed r' _ => r' = r
  | began r' _ => r' = r
  | _ => False

def told? (r : RequestId) : Event → Option Answered
  | called r' c answer => if r' = r then some (c, answer) else none
  | _ => none

/-- All that it was asked, oldest first. -/
def toldIn (r : RequestId) (log : List Event) : List Answered :=
  log.reverse.filterMap (told? r)

theorem toldIn_append (r : RequestId) (later earlier : List Event) :
    toldIn r (later ++ earlier) = toldIn r earlier ++ toldIn r later := by
  simp [toldIn]

theorem mem_toldIn {r : RequestId} {c : SinkCall} {answer : Except RenderError Bool}
    {log : List Event} : (c, answer) ∈ toldIn r log ↔ .called r c answer ∈ log := by
  simp only [toldIn, List.mem_filterMap, List.mem_reverse]
  constructor
  · rintro ⟨e, he, htold⟩
    cases e with
    | called r' c' answer' =>
      obtain ⟨rfl, heq⟩ := Option.ite_none_right_eq_some.mp htold
      cases heq
      exact he
    | _ => cases htold
  · exact fun he => ⟨_, he, if_pos rfl⟩

theorem told?_background {r : RequestId} {e : Event} (he : e.IsBackground r) :
    e.told? r = none := by
  cases e with
  | called r' c answer => exact if_neg fun h => he (congrArg some h)
  | _ => rfl

end Event

structure Request.SameFlow (q q' : Request κ) : Prop where
  rows : ∀ kind, q'.rows kind = q.rows kind
  pending : q'.pending = q.pending
  flowing : q'.flowing = q.flowing

theorem Request.SameFlow.trans {q₁ q₂ q₃ : Request κ} (h : q₁.SameFlow q₂) (h' : q₂.SameFlow q₃) :
    q₁.SameFlow q₃ :=
  ⟨fun kind => (h'.rows kind).trans (h.rows kind), h'.pending.trans h.pending,
    h'.flowing.trans h.flowing⟩

namespace Host

variable {user : UserCode κ σ} {r : RequestId} {h h' h₁ h₂ : Host κ σ} {m n : Nat} {q : Request κ}

/-- Nobody has reentered the request meanwhile. -/
abbrev Undisturbed (r : RequestId) : Host κ σ → Host κ σ → Prop := Silent (Event.Enters r)

def Tells (r : RequestId) (answers : List Answered)
    (h h' : Host κ σ) : Prop :=
  ∃ events, h'.journal = events ++ h.journal ∧ Event.toldIn r events = answers

theorem Tells.trans {as bs : List Answered} (h₁₂ : Tells r as h h₁)
    (h₂₃ : Tells r bs h₁ h₂) : Tells r (as ++ bs) h h₂ := by
  obtain ⟨es, hj, rfl⟩ := h₁₂
  obtain ⟨es', hj', rfl⟩ := h₂₃
  exact ⟨es' ++ es, by rw [hj', hj, List.append_assoc], Event.toldIn_append r es' es⟩

/-! ## What goes on around a flush -/

def Kept.flow (r : RequestId) : Kept κ r where
  holds _ := True
  same := Request.SameFlow
  tells e := e.told? r ≠ none
  refl _ := ⟨fun _ => rfl, rfl, rfl⟩
  trans := .trans
  stays _ := id
  background he htold := htold (Event.told?_background he)
  adjust hf q := by
    obtain ⟨sink, fatal, held, pinged, he, -⟩ := hf q
    rw [he]
    exact ⟨fun kind => by cases kind <;> rfl, rfl, rfl⟩

theorem Tells.of_silent (hs : Silent (Kept.flow (κ := κ) r).tells h h') : Tells r [] h h' := by
  obtain ⟨events, hj, hquiet⟩ := hs
  refine ⟨events, hj, List.filterMap_eq_nil_iff.mpr fun e he => ?_⟩
  exact not_not.mp (hquiet e (List.mem_reverse.mp he))

/-- Unless somebody reenters the request, its flow is left alone by all calls. -/
theorem frames_flow (user : UserCode κ σ) (r : RequestId) :
    Frames user r (Unless (Event.Enters r) (Keeps (Kept.flow r))) :=
  Unless.frames (Keeps.surrounds _) (fun _ => rfl) rfl (fun _ => rfl) fun _ _ =>
    .update fun _ _ => ⟨fun kind => by cases kind <;> rfl, rfl, rfl⟩

/-! ## One call of the destination -/

theorem callDestination_tells {c : SinkCall} {answer : Except RenderError Bool}
    (hq : h.requests[r.index]? = some q)
    (hrun : callDestination user (perform user m) r c h = some (answer, h'))
    (hu : Undisturbed r h h') :
    Tells r [(c, answer)] h h' ∧ ∃ q', h'.requests[r.index]? = some q' ∧ q.SameFlow q' := by
  obtain ⟨q₀, h₂, hq₀, hmeanwhile, -, rfl⟩ := callDestination_of_run (frames_flow user r) hrun
  cases hq.symm.trans hq₀
  have hbefore : h.Extends (h.tell (.calling r c q.pending)) := .tell h _
  have hafter : h₂.Extends (h₂.tell (.called r c answer)) := .tell h₂ _
  obtain ⟨-, hu⟩ := hu.split hbefore (hmeanwhile.grows.trans hafter)
  obtain ⟨⟨events, hj, hquiet⟩, -⟩ := hu.split hmeanwhile.grows hafter
  obtain ⟨hsilent, hsame⟩ := hmeanwhile.holds hj hquiet q hq trivial
  have hcalling : Tells r [] h (h.tell (.calling r c q.pending)) := ⟨[_], rfl, rfl⟩
  have hcalled : Tells r [(c, answer)] h₂ (h₂.tell (.called r c answer)) :=
    ⟨[_], rfl, by simp [Event.toldIn, Event.told?]⟩
  exact ⟨hcalling.trans ((Tells.of_silent hsilent).trans hcalled), hsame⟩

theorem callDestination_bind {α : Type} {k : Except RenderError Bool → HostM κ σ α} {a : α}
    {c : SinkCall} (hq : h.requests[r.index]? = some q)
    (hrun : (callDestination user (perform user m) r c >>= k) h = some (a, h'))
    (hu : Undisturbed r h h') (hk : ∀ answer, Respects Extends (k answer)) :
    ∃ answer h₁ q₁, k answer h₁ = some (a, h') ∧ Tells r [(c, answer)] h h₁ ∧
      h₁.requests[r.index]? = some q₁ ∧ q.SameFlow q₁ ∧ Undisturbed r h₁ h' := by
  have F : Frames user r Extends := frames_extends user r
  obtain ⟨⟨answer, h₁⟩, hcall, hrest⟩ := Option.bind_eq_some_iff.mp hrun
  have hcalled := F.callDestination (F.perform m) (respectsFlush_extends r) c hcall
  obtain ⟨hu₁, hu₂⟩ := hu.split hcalled (hk answer hrest)
  obtain ⟨htells, q₁, hq₁, hsame⟩ := callDestination_tells hq hcall hu₁
  exact ⟨answer, h₁, q₁, hrest, htells, hq₁, hsame, hu₂⟩

/-! ## Writing rows -/

structure Wrote (kind : RowKind) (ws : List Write) (q q' : Request κ) : Prop where
  drains : Drains (q.rows kind) ws (q'.rows kind)
  others : ∀ other ≠ kind, q'.rows other = q.rows other
  pending : q'.pending = q.pending - ws.length
  flowing : q'.flowing = (q.flowing && !ws.any Write.saturates)

theorem Wrote.refused {kind : RowKind} {row : Row} {rest : List Row} {q₁ q' : Request κ}
    {answer : Except RenderError Bool} (hrows : q.rows kind = row :: rest)
    (hsame : { q.setRows kind rest with pending := q.pending - 1 }.SameFlow q₁)
    (hanswer : answer ≠ .ok true) (hrows' : ∀ kind, q'.rows kind = q₁.rows kind)
    (hpending : q'.pending = q₁.pending)
    (hflowing : q'.flowing = (q₁.flowing && !Write.saturates ⟨row, answer⟩)) :
    Wrote kind [⟨row, answer⟩] q q' := by
  have hset : ∀ other, q'.rows other = if other = kind then rest else q.rows other := by
    intro other
    rw [hrows', hsame.rows, ← Request.rows_setRows]
    cases other <;> rfl
  refine ⟨?_, fun other hne => ?_, ?_, ?_⟩
  · rw [hset, if_pos rfl, hrows]
    exact .refused hanswer
  · rw [hset, if_neg hne]
  · rw [hpending, hsame.pending]
    rfl
  · rw [hflowing, hsame.flowing]
    cases kind <;> simp [Request.setRows]

theorem Wrote.welcome {kind : RowKind} {row : Row} {rest : List Row} {ws : List Write}
    {q₁ q' : Request κ} (hrows : q.rows kind = row :: rest)
    (hsame : { q.setRows kind rest with pending := q.pending - 1 }.SameFlow q₁)
    (hlater : Wrote kind ws q₁ q') : Wrote kind (⟨row, .ok true⟩ :: ws) q q' := by
  have hset : ∀ other, q₁.rows other = if other = kind then rest else q.rows other := by
    intro other
    rw [hsame.rows, ← Request.rows_setRows]
    cases other <;> rfl
  refine ⟨?_, fun other hne => ?_, ?_, ?_⟩
  · have hdrains := hlater.drains
    rw [hset, if_pos rfl] at hdrains
    rw [hrows]
    exact .welcome hdrains
  · rw [hlater.others other hne, hset, if_neg hne]
  · rw [hlater.pending, hsame.pending, List.length_cons]
    simp only [Nat.sub_sub, Nat.add_comm]
  · rw [hlater.flowing, hsame.flowing]
    cases kind <;> rfl

theorem takeRow_of_run {kind : RowKind} {taken : Option Row} (hq : h.requests[r.index]? = some q)
    (hrun : takeRow r kind h = some (taken, h')) :
    (q.rows kind = [] ∧ taken = none ∧ h' = h) ∨
      ∃ row rest, q.rows kind = row :: rest ∧ taken = some row ∧
        h' = h.update r fun req => { req.setRows kind rest with pending := req.pending - 1 } := by
  rw [takeRow, run_bind, run_request hq, Option.bind_some] at hrun
  cases hrows : q.rows kind with
  | nil =>
    simp only [hrows, run_pure] at hrun
    cases hrun
    exact .inl ⟨rfl, rfl, rfl⟩
  | cons row rest =>
    simp only [hrows, run_bind, run_modifyRequest, Option.bind_some, run_pure] at hrun
    cases hrun
    exact .inr ⟨row, rest, rfl, rfl, rfl⟩

theorem writeRows_wrote {kind : RowKind} {result : Except RenderError Unit}
    (hq : h.requests[r.index]? = some q)
    (hrun : writeRows user (perform user m) r kind n h = some (result, h'))
    (hu : Undisturbed r h h') :
    ∃ ws q', h'.requests[r.index]? = some q' ∧ Wrote kind ws q q' ∧
      Tells r (ws.map Write.told) h h' ∧ result = Answered.outcome (ws.map Write.told) := by
  have F : Frames user r Extends := frames_extends user r
  have hd : RespectsFlush Extends r := respectsFlush_extends (κ := κ) (σ := σ) r
  induction n generalizing h q with
  | zero => cases hrun
  | succ n ih =>
    obtain ⟨⟨taken, h₀⟩, htake, hrest⟩ := Option.bind_eq_some_iff.mp hrun
    obtain ⟨hrows, rfl, rfl⟩ | ⟨row, rest, hrows, rfl, rfl⟩ := takeRow_of_run hq htake
    · cases hrest
      refine ⟨[], q, hq, ⟨?_, fun _ _ => rfl, rfl, by simp⟩, ⟨[], rfl, rfl⟩, rfl⟩
      rw [hrows]
      exact .dry
    have hq₀ := requests_update_self hq fun req =>
      { req.setRows kind rest with pending := req.pending - 1 }
    obtain ⟨answer, h₁, q₁, hrest, htells, hq₁, hsame, hu₁⟩ :=
      callDestination_bind hq₀ hrest hu (F.afterWrite hd (F.writeRows (F.perform m) hd kind n))
    rcases answer with e | _ | _
    · cases hrest
      exact ⟨[⟨row, .error e⟩], q₁, hq₁, .refused hrows hsame (by simp) (fun _ => rfl) rfl
        (by simp [Write.saturates, SinkCall.isSaturation]), htells, rfl⟩
    · cases hrest
      refine ⟨[⟨row, .ok false⟩], _, requests_update_self hq₁ _,
        .refused hrows hsame (by simp) (fun kind => ?_) rfl ?_, htells, rfl⟩
      · cases kind <;> rfl
      · simp [Write.saturates, SinkCall.isSaturation]
    · obtain ⟨ws, q', hq', hwrote, htells', rfl⟩ := ih hq₁ hrest hu₁
      exact ⟨⟨row, .ok true⟩ :: ws, q', hq', hwrote.welcome hrows hsame, htells.trans htells',
        rfl⟩

/-! ## Batches -/

/-- The end of a batch leaves the rows alone. Nothing is asked after a failure. -/
theorem endBatch_tells {written result : Except RenderError Unit}
    (hq : h.requests[r.index]? = some q)
    (hrun : endBatch user (perform user m) r written h = some (result, h'))
    (hu : Undisturbed r h h') :
    ∃ completed ending q', h'.requests[r.index]? = some q' ∧ q.SameFlow q' ∧
      Tells r ((.complete, completed) :: ending) h h' ∧
      (∀ a ∈ ending, a.1 = .flush ∨ a.1 = .close) ∧
      result = written.bind fun _ => Answered.outcome ((.complete, completed) :: ending) := by
  have F : Frames user r Extends := frames_extends user r
  have hd : RespectsFlush Extends r := respectsFlush_extends (κ := κ) (σ := σ) r
  obtain ⟨completed, h₁, q₁, hrest, hcompleted, hq₁, hsame₁, hu₁⟩ :=
    callDestination_bind hq hrun hu (F.afterComplete (F.perform m) hd written)
  rcases written with e | ⟨⟩
  · cases hrest
    exact ⟨completed, [], q₁, hq₁, hsame₁, hcompleted, nofun, rfl⟩
  rcases completed with e | b
  · cases hrest
    exact ⟨.error e, [], q₁, hq₁, hsame₁, hcompleted, nofun, rfl⟩
  obtain ⟨flushed, h₂, q₂, hrest, hflushed, hq₂, hsame₂, hu₂⟩ :=
    callDestination_bind hq₁ hrest hu₁ (F.afterFlush (F.perform m) hd)
  have hsame := hsame₁.trans hsame₂
  rcases flushed with e | b'
  · cases hrest
    exact ⟨.ok b, [(.flush, .error e)], q₂, hq₂, hsame, hcompleted.trans hflushed, by simp, rfl⟩
  have hrest : closeIfFinished user (perform user m) r h₂ = some (result, h') := hrest
  rw [closeIfFinished, run_bind, run_request hq₂, Option.bind_some] at hrest
  by_cases hpending : q₂.pending = 0
  · rw [if_pos hpending, run_bind, run_modifyRequest, Option.bind_some] at hrest
    obtain ⟨closed, h₃, q₃, hrest, hclosed, hq₃, hsame₃, -⟩ :=
      callDestination_bind (requests_update_self hq₂ _) hrest hu₂ fun closed => by
        cases closed <;> exact F.toSurrounds.pure _
    have hmark : q₂.SameFlow { q₂ with closed := true } :=
      ⟨fun kind => by cases kind <;> rfl, rfl, rfl⟩
    have hsame₃ := hsame.trans (hmark.trans hsame₃)
    refine ⟨.ok b, [(.flush, .ok b'), (.close, closed)], q₃, ?_, hsame₃, ?_, by simp, ?_⟩
    · cases closed <;> cases hrest <;> exact hq₃
    · cases closed <;> cases hrest <;> exact hcompleted.trans (hflushed.trans hclosed)
    · cases closed <;> cases hrest <;> rfl
  · rw [if_neg hpending] at hrest
    cases hrest
    exact ⟨.ok b, [(.flush, .ok b')], q₂, hq₂, hsame, hcompleted.trans hflushed, by simp, rfl⟩

/-- What a batch that has begun makes of a request. After a failed value row no error row is
tried. -/
structure HandsOver (values errors : List Write) (q q' : Request κ) : Prop where
  modelRows : Drains q.modelRows values q'.modelRows
  errorRows : if values.any Write.fails then errors = [] ∧ q'.errorRows = q.errorRows
    else Drains q.errorRows errors q'.errorRows
  pending : q'.pending = q.pending - (values.length + errors.length)
  flowing : q'.flowing = (q.flowing && !(values ++ errors).any Write.saturates)

theorem writeBatch_tells {result : Except RenderError Unit} (hq : h.requests[r.index]? = some q)
    (hrun : writeBatch user (perform user m) r n h = some (result, h')) (hu : Undisturbed r h h') :
    ∃ values errors q', h'.requests[r.index]? = some q' ∧ HandsOver values errors q q' ∧
      Tells r ((values ++ errors).map Write.told) h h' ∧
      result = Answered.outcome ((values ++ errors).map Write.told) := by
  have F : Frames user r Extends := frames_extends user r
  have hd : RespectsFlush Extends r := respectsFlush_extends (κ := κ) (σ := σ) r
  obtain ⟨⟨written, h₁⟩, hvalues, hrest⟩ := Option.bind_eq_some_iff.mp hrun
  have hlater : h₁.Extends h' := by
    rcases written with e | ⟨⟩
    · cases hrest
      exact List.suffix_rfl
    · exact F.writeRows (F.perform m) hd .error n hrest
  obtain ⟨hu₁, hu₂⟩ := hu.split (F.writeRows (F.perform m) hd .model n hvalues) hlater
  obtain ⟨values, q₁, hq₁, hwrote, htells, rfl⟩ := writeRows_wrote hq hvalues hu₁
  cases hfails : values.any Write.fails with
  | true =>
    obtain ⟨e, he⟩ := (Write.outcome_told values).mp hfails
    rw [he] at hrest
    cases hrest
    refine ⟨values, [], q₁, hq₁, ⟨hwrote.drains, ?_, hwrote.pending, ?_⟩, ?_, ?_⟩
    · rw [if_pos hfails]
      exact ⟨rfl, hwrote.others .error nofun⟩
    · rw [List.append_nil, hwrote.flowing]
    · rwa [List.append_nil]
    · rw [List.append_nil, he]
  | false =>
    have hok : Answered.outcome (values.map Write.told) = .ok () := by
      cases houtcome : Answered.outcome (values.map Write.told) with
      | ok u => rfl
      | error e => exact nomatch hfails.symm.trans ((Write.outcome_told values).mpr ⟨e, houtcome⟩)
    rw [hok] at hrest
    obtain ⟨errors, q', hq', hwrote', htells', rfl⟩ := writeRows_wrote hq₁ hrest hu₂
    refine ⟨values, errors, q', hq', ⟨?_, ?_, ?_, ?_⟩, ?_, ?_⟩
    · have hmodel : q'.modelRows = q₁.modelRows := hwrote'.others .model nofun
      exact hmodel ▸ hwrote.drains
    · rw [if_neg (by simp [hfails])]
      have herror : q₁.errorRows = q.errorRows := hwrote.others .error nofun
      exact herror ▸ hwrote'.drains
    · rw [hwrote'.pending, hwrote.pending, Nat.sub_sub]
    · rw [hwrote'.flowing, hwrote.flowing, List.any_append, Bool.not_or, Bool.and_assoc]
    · rw [List.map_append]
      exact htells.trans htells'
    · rw [List.map_append, Answered.outcome_append, hok]
      rfl

/-- What a flush makes of a request that is open. If the batch cannot begin, nothing is handed
over. -/
theorem flush_tells {result : Except RenderError Unit} (hq : h.requests[r.index]? = some q)
    (hidle : q.flushing = false) (hopen : q.closed = false)
    (hrun : flush user (perform user m) r n h = some (result, h')) (hu : Undisturbed r h h') :
    (∃ e, Tells r [(.begin, .error e)] h h') ∨
      ∃ b values errors completed ending q', h'.requests[r.index]? = some q' ∧
        HandsOver values errors q q' ∧
        Tells r ((.begin, .ok b) :: (values ++ errors).map Write.told ++
          (.complete, completed) :: ending) h h' ∧
        (∀ a ∈ ending, a.1 = .flush ∨ a.1 = .close) ∧
        result = Answered.outcome ((values ++ errors).map Write.told ++
          (.complete, completed) :: ending) := by
  have F : Frames user r Extends := frames_extends user r
  have hd : RespectsFlush Extends r := respectsFlush_extends (κ := κ) (σ := σ) r
  rw [run_flush hq hidle hopen] at hrun
  obtain ⟨⟨result', h₁⟩, hbatch, hend⟩ := Option.map_eq_some_iff.mp hrun
  cases hend
  have hu' : Undisturbed r (h.update r fun q => { q with flushing := true }) h₁ := hu
  obtain ⟨begun, h₂, q₂, hrest, hbegun, hq₂, hsame₂, hu₂⟩ :=
    callDestination_bind (requests_update_self hq _) hbatch hu' (F.afterBegin (F.perform m) hd n)
  rcases begun with e | b
  · cases hrest
    exact .inl ⟨e, hbegun⟩
  obtain ⟨⟨written, h₃⟩, hwritten, hrest⟩ := Option.bind_eq_some_iff.mp hrest
  obtain ⟨hu₃, hu₄⟩ := hu₂.split (F.writeBatch (F.perform m) hd n hwritten)
    (F.endBatch (F.perform m) hd written hrest)
  obtain ⟨values, errors, q₃, hq₃, hands, htells, rfl⟩ := writeBatch_tells hq₂ hwritten hu₃
  obtain ⟨completed, ending, q₄, hq₄, hsame₄, hended, hcalls, rfl⟩ := endBatch_tells hq₃ hrest hu₄
  refine .inr ⟨b, values, errors, completed, ending, _, requests_update_self hq₄ _, ?_,
    hbegun.trans (htells.trans hended), hcalls, (Answered.outcome_append _ _).symm⟩
  have hmark : ∀ (q : Request κ) b, q.SameFlow { q with flushing := b } :=
    fun q b => ⟨fun kind => by cases kind <;> rfl, rfl, rfl⟩
  have hbefore : q.SameFlow q₂ := (hmark q true).trans hsame₂
  have hafter : q₃.SameFlow { q₄ with flushing := false } := hsame₄.trans (hmark q₄ false)
  have hmodel : q₂.modelRows = q.modelRows := hbefore.rows .model
  have herror : q₂.errorRows = q.errorRows := hbefore.rows .error
  have hmodel' : q₄.modelRows = q₃.modelRows := hafter.rows .model
  have herror' : q₄.errorRows = q₃.errorRows := hafter.rows .error
  refine ⟨?_, ?_, ?_, ?_⟩
  · exact hmodel ▸ hmodel' ▸ hands.modelRows
  · exact herror ▸ herror' ▸ hands.errorRows
  · rw [hafter.pending, hands.pending, hbefore.pending]
  · rw [hafter.flowing, hands.flowing, hbefore.flowing]

theorem flush_begins {result : Except RenderError Unit}
    (hrun : flush user (perform user m) r n h = some (result, h')) :
    h'.journal = h.journal ∨ ∃ pending, (h.tell (.calling r .begin pending)).Extends h' := by
  have F : Frames user r Extends := frames_extends user r
  have hd : RespectsFlush Extends r := respectsFlush_extends (κ := κ) (σ := σ) r
  obtain ⟨⟨q, h₀⟩, hreq, hrest⟩ := Option.bind_eq_some_iff.mp hrun
  obtain ⟨hq, rfl⟩ := request_of_run hreq
  cases hidle : q.flushing with
  | true =>
    simp only [hidle, if_true] at hrest
    cases hrest
    exact .inl rfl
  | false =>
    cases hopen : q.closed with
    | true =>
      rw [run_flush_closed hq hidle hopen] at hrun
      cases hrun
      exact .inl rfl
    | false =>
      rw [run_flush hq hidle hopen] at hrun
      obtain ⟨⟨result', h₁⟩, hbatch, hend⟩ := Option.map_eq_some_iff.mp hrun
      cases hend
      obtain ⟨⟨begun, h₂⟩, hbegin, hrest⟩ := Option.bind_eq_some_iff.mp hbatch
      obtain ⟨q₁, h₄, -, hcalled, -, rfl⟩ := callDestination_of_run F hbegin
      have hlater : (h₄.tell (.called r .begin begun)).Extends h₁ :=
        F.afterBegin (F.perform m) hd n begun hrest
      exact .inr ⟨q₁.pending, hcalled.trans ((Extends.tell h₄ _).trans hlater)⟩

/-! ## Flushes that come to an end -/

/-- In states of this kind the destination answers whatever it is asked, does not reenter the
request, and leaves such a state behind. -/
def AnswersAlone (user : UserCode κ σ) (m : Nat) (r : RequestId) (J : Host κ σ → Prop) : Prop :=
  ∀ c h, J h → ∃ answer h', callDestination user (perform user m) r c h = some (answer, h') ∧
    Undisturbed r h h' ∧ J h'

/-- No change that a flush makes leaves this kind of state. -/
def AllowsFlush (r : RequestId) (J : Host κ σ → Prop) : Prop :=
  ∀ h {f : Request κ → Request κ}, Request.Delivers f → J h → J (h.update r f)

/-- The action comes to an end and leaves such a state behind; nobody reenters the request. -/
def Ends {α : Type} (r : RequestId) (J : Host κ σ → Prop) (m : HostM κ σ α) (h : Host κ σ) : Prop :=
  ∃ a h', m h = some (a, h') ∧ Undisturbed r h h' ∧ J h'

section

variable {J : Host κ σ → Prop}

theorem Ends.pure {α : Type} {a : α} (hJ : J h) : Ends r J (Pure.pure a) h :=
  ⟨a, h, rfl, .of_eq rfl, hJ⟩

theorem AnswersAlone.bind {α : Type} (ha : AnswersAlone user m r J)
    {k : Except RenderError Bool → HostM κ σ α} {c : SinkCall} (hq : h.requests[r.index]? = some q)
    (hJ : J h)
    (hk : ∀ answer h₁ q₁, h₁.requests[r.index]? = some q₁ → q.SameFlow q₁ → J h₁ →
      Ends r J (k answer) h₁) :
    Ends r J (callDestination user (perform user m) r c >>= k) h := by
  obtain ⟨answer, h₁, hcall, hu₁, hJ₁⟩ := ha c h hJ
  obtain ⟨-, q₁, hq₁, hsame⟩ := callDestination_tells hq hcall hu₁
  obtain ⟨a, h', hrest, hu₂, hJ₂⟩ := hk answer h₁ q₁ hq₁ hsame hJ₁
  refine ⟨a, h', ?_, hu₁.trans hu₂, hJ₂⟩
  rw [run_bind, hcall]
  exact hrest

variable (ha : AnswersAlone user m r J) (hf : AllowsFlush r J)

include ha hf

theorem writeRows_ends {kind : RowKind} (hq : h.requests[r.index]? = some q) (hJ : J h)
    (hn : (q.rows kind).length < n) :
    Ends r J (writeRows user (perform user m) r kind n) h := by
  induction n generalizing h q with
  | zero => exact absurd hn (Nat.not_lt_zero _)
  | succ n ih =>
    unfold Ends
    rw [writeRows, run_bind, takeRow, run_bind, run_request hq, Option.bind_some]
    cases hrows : q.rows kind with
    | nil => exact ⟨.ok (), h, rfl, .of_eq rfl, hJ⟩
    | cons row rest =>
      have htaken : J (h.update r fun req =>
          { req.setRows kind rest with pending := req.pending - 1 }) :=
        hf h (fun q => by cases kind <;> exact ⟨_, _, _, _, _, _, rfl⟩) hJ
      refine ha.bind (requests_update_self hq _) htaken fun answer h₁ q₁ hq₁ hsame hJ₁ => ?_
      rcases answer with e | _ | _
      · exact .pure hJ₁
      · exact ⟨.ok (), _, rfl, .of_eq rfl,
          hf h₁ (fun _ => ⟨_, _, _, _, _, _, rfl⟩) hJ₁⟩
      · have hrest : q₁.rows kind = rest := by
          rw [hsame.rows]
          cases kind <;> rfl
        refine ih hq₁ hJ₁ ?_
        rw [hrows, List.length_cons] at hn
        rw [hrest]
        exact Nat.lt_of_succ_lt_succ hn

theorem endBatch_ends (hq : h.requests[r.index]? = some q) (hJ : J h)
    (written : Except RenderError Unit) :
    Ends r J (endBatch user (perform user m) r written) h := by
  refine ha.bind hq hJ fun completed h₁ q₁ hq₁ _ hJ₁ => ?_
  rcases written with e | ⟨⟩
  · exact .pure hJ₁
  rcases completed with e | b
  · exact .pure hJ₁
  refine ha.bind hq₁ hJ₁ fun flushed h₂ q₂ hq₂ _ hJ₂ => ?_
  rcases flushed with e | b
  · exact .pure hJ₂
  change Ends r J (closeIfFinished user (perform user m) r) h₂
  unfold Ends
  rw [closeIfFinished, run_bind, run_request hq₂, Option.bind_some]
  split
  · obtain ⟨closed, h₃, hcall, hu, hJ₃⟩ :=
      ha .close _ (hf h₂ (fun _ => ⟨_, _, _, _, _, _, rfl⟩) hJ₂)
    rw [run_bind, run_modifyRequest, Option.bind_some, run_bind, hcall, Option.bind_some]
    cases closed <;> exact ⟨_, h₃, rfl, hu, hJ₃⟩
  · exact ⟨.ok (), h₂, rfl, .of_eq rfl, hJ₂⟩

/-- A flush comes to an end, if the bound lets it look at every row. -/
theorem flush_ends (hq : h.requests[r.index]? = some q) (hidle : q.flushing = false)
    (hopen : q.closed = false) (hJ : J h) (hn : ∀ kind, (q.rows kind).length < n) :
    Ends r J (flush user (perform user m) r n) h := by
  unfold Ends
  rw [run_flush hq hidle hopen]
  suffices hbatch : Ends r J (batch user (perform user m) r n)
      (h.update r fun q => { q with flushing := true }) by
    obtain ⟨result, h', hrun, hu, hJ'⟩ := hbatch
    exact ⟨result, h'.update r fun q => { q with flushing := false }, by rw [hrun]; rfl, hu,
      hf h' (fun _ => ⟨_, _, _, _, _, _, rfl⟩) hJ'⟩
  refine ha.bind (requests_update_self hq _) (hf h (fun _ => ⟨_, _, _, _, _, _, rfl⟩) hJ)
    fun begun h₁ q₁ hq₁ hsame hJ₁ => ?_
  rcases begun with e | b
  · exact .pure hJ₁
  have hrows : ∀ kind, q₁.rows kind = q.rows kind := fun kind => by
    rw [hsame.rows]
    cases kind <;> rfl
  obtain ⟨written, h₂, hvalues, hu₂, hJ₂⟩ := writeRows_ends ha hf hq₁ hJ₁ (hrows .model ▸ hn .model)
  obtain ⟨values, q₂, hq₂, hwrote, -, -⟩ := writeRows_wrote hq₁ hvalues hu₂
  obtain ⟨written', h₃, hrest, hu₃, hJ₃⟩ : Ends r J (writeBatch user (perform user m) r n) h₁ := by
    unfold Ends
    rw [writeBatch, run_bind, hvalues, Option.bind_some]
    rcases written with e | ⟨⟩
    · exact ⟨.error e, h₂, rfl, hu₂, hJ₂⟩
    · obtain ⟨written', h₃, herrors, hu₃, hJ₃⟩ := writeRows_ends ha hf hq₂ hJ₂
        ((hwrote.others .error nofun).trans (hrows .error) ▸ hn .error)
      exact ⟨written', h₃, herrors, hu₂.trans hu₃, hJ₃⟩
  obtain ⟨errors, -, q₃, hq₃, -⟩ := writeBatch_tells hq₁ hrest hu₃
  obtain ⟨result, h', hend, hu₄, hJ₄⟩ := endBatch_ends ha hf hq₃ hJ₃ written'
  refine ⟨result, h', ?_, hu₃.trans hu₄, hJ₄⟩
  change (writeBatch user (perform user m) r n >>= endBatch user (perform user m) r) h₁ = _
  rw [run_bind, hrest]
  exact hend

end

/-! ## Destinations that make no calls -/

/-- The request has this code in front of a sink that is no channel, and nothing but this is
queued. -/
def Guarded (r : RequestId) (guard : Option (Code κ)) (queue : List (Work κ))
    (tasks : List (Task κ)) (h : Host κ σ) : Prop :=
  h.queue = queue ∧ h.tasks = tasks ∧ ∃ q, h.requests[r.index]? = some q ∧
    q.settings.guard = guard ∧ q.settings.sink.channel? = none

variable {guard : Option (Code κ)} {queue : List (Work κ)} {tasks : List (Task κ)}

theorem allowsFlush_guarded :
    AllowsFlush r (Guarded (κ := κ) (σ := σ) r guard queue tasks) := by
  rintro h f hf ⟨hqueue, htasks, q, hq, hguard, hsink⟩
  obtain ⟨pending, modelRows, errorRows, flowing, closed, flushing, he⟩ := hf q
  refine ⟨hqueue, htasks, f q, requests_update_self hq f, ?_⟩
  rw [he]
  exact ⟨hguard, hsink⟩

theorem run_of_no_calls {α : Type} (call : (c : HostCall κ) → HostM κ σ c.Reply)
    {script : Script κ σ α} (hs : script.Makes fun _ => False) (h : Host κ σ) :
    ∃ a s, script.run call h = some (a, { h with user := s }) := by
  induction script generalizing h with
  | done a => exact ⟨a, h.user, rfl⟩
  | get next ih => exact ih _ (hs _) h
  | put s next ih =>
    obtain ⟨a, s', hrun⟩ := ih hs { h with user := s }
    exact ⟨a, s', hrun⟩
  | call c next => exact hs.1.elim

theorem answer_of_no_channel {sink : Sink} (hs : sink.channel? = none) (c : SinkCall) :
    (sink.answer c).2.1 = false ∧ (sink.answer c).2.2.channel? = none := by
  cases sink with
  | channel channel => cases hs
  | memory m => cases c <;> exact ⟨rfl, rfl⟩
  | discard => exact ⟨rfl, rfl⟩

theorem answersAlone_guarded
    (hu : ∀ code, guard = some code → ∀ c, (user.destination code c).Makes fun _ => False)
    (m : Nat) :
    AnswersAlone user m r (Guarded r guard queue tasks) := by
  rintro c h ⟨hqueue, htasks, q, hq, hguard, hsink⟩
  have hquiet : ∀ {answer} {h₁ : Host κ σ}, h₁.journal = .calling r c q.pending :: h.journal →
      Undisturbed r h (h₁.tell (.called r c answer)) := by
    intro answer h₁ hj
    refine ⟨[.called r c answer, .calling r c q.pending], congrArg (_ :: ·) hj, ?_⟩
    simp [Event.Enters]
  obtain ⟨v, h₁, hverdict, hj₁, hqueue₁, htasks₁, hq₁⟩ : ∃ v h₁, verdict user (perform user m) r c
      (h.tell (.calling r c q.pending)) = some (v, h₁) ∧
        h₁.journal = .calling r c q.pending :: h.journal ∧ h₁.queue = queue ∧ h₁.tasks = tasks ∧
        h₁.requests[r.index]? = some q := by
    have htold : (h.tell (.calling r c q.pending)).requests[r.index]? = some q := hq
    rw [verdict, run_bind, run_request htold, Option.bind_some, hguard]
    cases guard with
    | none => exact ⟨_, _, rfl, rfl, hqueue, htasks, hq⟩
    | some code =>
      obtain ⟨v, s, hrun⟩ := run_of_no_calls (perform user m) (hu code rfl c)
        (h.tell (.calling r c q.pending))
      exact ⟨v, _, hrun, rfl, hqueue, htasks, hq⟩
  obtain ⟨hdriver, hsink'⟩ := answer_of_no_channel hsink c
  obtain ⟨a, h₂, hcall, hj₂, hqueue₂, htasks₂, q₂, hq₂, hguard₂, hsink₂⟩ : ∃ a h₂,
      callSink r c h₁ = some (a, h₂) ∧ h₂.journal = .calling r c q.pending :: h.journal ∧
        Guarded r guard queue tasks h₂ := by
    rw [callSink, run_bind, run_request hq₁, Option.bind_some, run_bind, run_modifyRequest,
      Option.bind_some, hdriver]
    exact ⟨_, _, rfl, hj₁, hqueue₁, htasks₁, _, requests_update_self hq₁ _, hguard, hsink'⟩
  simp only [callDestination, run_bind, run_request hq, Option.bind_some, run_record, hverdict]
  cases v with
  | fail e => exact ⟨.error e, _, rfl, hquiet hj₁, hqueue₁, htasks₁, q, hq₁, hguard, hsink⟩
  | pass =>
    simp only [run_bind, hcall, Option.bind_some]
    exact ⟨a, _, rfl, hquiet hj₂, hqueue₂, htasks₂, q₂, hq₂, hguard₂, hsink₂⟩
  | answer welcome =>
    simp only [run_bind, hcall, Option.bind_some]
    cases a with
    | error e => exact ⟨.error e, _, rfl, hquiet hj₂, hqueue₂, htasks₂, q₂, hq₂, hguard₂, hsink₂⟩
    | ok b => exact ⟨.ok welcome, _, rfl, hquiet hj₂, hqueue₂, htasks₂, q₂, hq₂, hguard₂, hsink₂⟩

/-! ## The exact effect of a flush -/

/-- Whatever user code does, for every flush of a request that is open and under no flush: if nobody
reenters the request and the batch begins, then of both queues exactly the rows up to the first
refused one are handed over, error rows only if no value row has failed; the queues keep what
remains, as many rows fewer are pending, the flow stops if and only if the destination has wanted no
more, and the first failure is the result, that of a row before that of the completion. Such a flush
comes to an end if the destination answers, alone. A flush asks for nothing before it begins a
batch, and in every state that a session reaches, no batch has begun in a pause that was not ended
by a start or a resumption. After a flush that has stopped the flow the destination is left alone
for as long as a session goes on without one. -/
theorem flush_exact (user : UserCode κ σ) (r : RequestId) :
    (∀ (m n : Nat) (h h' : Host κ σ) (q : Request κ) (result : Except RenderError Unit)
        (events : List Event), h.requests[r.index]? = some q → q.flushing = false →
      q.closed = false → flush user (perform user m) r n h = some (result, h') →
      h'.journal = events ++ h.journal → (∀ e ∈ events, ¬ e.Enters r) →
      (∀ e, .called r .begin (.error e) ∉ events) →
      ∃ begun values errors completed ending q', h'.requests[r.index]? = some q' ∧
        HandsOver values errors q q' ∧
        Event.toldIn r events = (.begin, .ok begun) :: (values ++ errors).map Write.told ++
          (.complete, completed) :: ending ∧
        (∀ a ∈ ending, a.1 = .flush ∨ a.1 = .close) ∧
        result = Answered.outcome ((values ++ errors).map Write.told ++
          (.complete, completed) :: ending)) ∧
    (∀ (m n : Nat) (J : Host κ σ → Prop) (h : Host κ σ) (q : Request κ),
      AnswersAlone user m r J → AllowsFlush r J → h.requests[r.index]? = some q →
      q.flushing = false → q.closed = false → J h → (∀ kind, (q.rows kind).length < n) →
      ∃ result h', flush user (perform user m) r n h = some (result, h') ∧ Undisturbed r h h' ∧
        J h') ∧
    (∀ (m n : Nat) (h h' : Host κ σ) (result : Except RenderError Unit),
      flush user (perform user m) r n h = some (result, h') →
      h'.journal = h.journal ∨ ∃ pending, (h.tell (.calling r .begin pending)).Extends h') ∧
    (∀ (h : Host κ σ) (later between earlier : List Event) (row : Row) (pending : Nat),
      Reachable user (fun _ => True) h →
      h.journal = later ++ .calling r .begin pending :: between ++
        .called r (.write row) (.ok false) :: earlier → ∃ e ∈ between, e.Restarts r) ∧
    ∀ (h h' : Host κ σ) (q : Request κ) (events : List Event), h.requests[r.index]? = some q →
      q.flowing = false → Relation.ReflTransGen (Step user fun _ => True) h h' →
      h'.journal = events ++ h.journal → (∀ e ∈ events, ¬ e.Restarts r) →
      ∀ c pending, .calling r c pending ∉ events := by
  refine ⟨?_, fun m n J h q ha hf hq hidle hopen hJ hn => flush_ends ha hf hq hidle hopen hJ hn,
    fun m n h h' result hrun => flush_begins hrun,
    fun h later between earlier row pending hr hj => hr.restarts hj, ?_⟩
  · intro m n h h' q result events hq hidle hopen hrun hj hquiet hbegun
    have hevents : ∀ {answers}, Tells r answers h h' → Event.toldIn r events = answers := by
      rintro answers ⟨events', hj', rfl⟩
      rw [List.append_cancel_right (hj.symm.trans hj')]
    rcases flush_tells hq hidle hopen hrun ⟨events, hj, hquiet⟩ with ⟨e, htells⟩ |
      ⟨begun, values, errors, completed, ending, q', hq', hands, htells, hcalls, hresult⟩
    · refine absurd (Event.mem_toldIn.mp ?_) (hbegun e)
      rw [hevents htells]
      exact List.mem_singleton_self _
    · exact ⟨begun, values, errors, completed, ending, q', hq', hands, hevents htells, hcalls,
        hresult⟩
  · exact fun h h' q events hq hstopped hsteps hj hquiet =>
      unasked_of_steps hsteps hq hstopped hj hquiet

end Host

namespace Late

/-- The late component with a destination that wants no value row after the first, takes no error
row, and cannot complete a batch. -/
def choosy : UserCode Unit Unit where
  __ := user
  destination _ c :=
    match c with
    | .write row => .done (if row.kind = .model then .answer false else .fail (.io "full"))
    | .complete => .done (.fail (.io "torn"))
    | _ => .done .pass

def stocked : Host Unit Unit where
  user := ()
  requests := #[
    { Request.ofModel guarded model with
      pending := 5
      modelRows := [.ofModel (.ofNat 1) "1", .ofModel (.ofNat 2) "2"]
      errorRows := [.ofError (.ofNat 3) (.io "3"), .ofError (.ofNat 4) (.io "4")]
      flowing := true }]

end Late

namespace Host

/-- One row of each kind is handed over, and the failure of a row comes first. -/
theorem flush_exact_choosy :
    ∃ (h' : Host Unit Unit) (q q' : Request Unit) (values errors : List Write)
      (result : Except RenderError Unit),
      Late.stocked.requests[0]? = some q ∧ h'.requests[0]? = some q' ∧
      flush Late.choosy (perform Late.choosy 3) ⟨0⟩ 5 Late.stocked = some (result, h') ∧
      HandsOver values errors q q' ∧ q'.pending = 3 ∧ q'.flowing = false ∧
      Event.toldIn ⟨0⟩ h'.journal =
        [(.begin, .ok true), (.write (.ofModel (.ofNat 1) "1"), .ok false),
          (.write (.ofError (.ofNat 3) (.io "3")), .error (.io "full")),
          (.complete, .error (.io "torn"))] ∧
      result = .error (.io "full") ∧
      ∀ h'' events, Relation.ReflTransGen (Step Late.choosy fun _ => True) h' h'' →
        h''.journal = events ++ h'.journal → (∀ e ∈ events, ¬ e.Restarts ⟨0⟩) →
        ∀ c pending, .calling ⟨0⟩ c pending ∉ events := by
  obtain ⟨hexact, hends, -, -, hpause⟩ := flush_exact Late.choosy ⟨0⟩
  have halone : AnswersAlone Late.choosy 3 ⟨0⟩ (Guarded ⟨0⟩ Late.guarded.guard [] []) :=
    answersAlone_guarded (fun _ _ c => by cases c <;> exact trivial) 3
  obtain ⟨result, h', hrun, ⟨events, hj, hquiet⟩, -⟩ := hends 3 5 _ Late.stocked _ halone
    allowsFlush_guarded rfl rfl rfl ⟨rfl, rfl, _, rfl, rfl, rfl⟩
    fun kind => by cases kind <;> decide
  have hchecked : (flush Late.choosy (perform Late.choosy 3) ⟨0⟩ 5 Late.stocked).any (fun run =>
      decide (run.1 = .error (.io "full") ∧ Event.toldIn ⟨0⟩ run.2.journal =
        [(.begin, .ok true), (.write (.ofModel (.ofNat 1) "1"), .ok false),
          (.write (.ofError (.ofNat 3) (.io "3")), .error (.io "full")),
          (.complete, .error (.io "torn"))] ∧
        (run.2.requests[0]?).any fun q => q.pending = 3 ∧ q.flowing = false)) = true := by
    decide +kernel
  rw [hrun] at hchecked
  obtain ⟨hresult, htold, hchecked⟩ := of_decide_eq_true hchecked
  obtain rfl : events = h'.journal := by rw [hj]; exact (List.append_nil _).symm
  have hbegun : ∀ e, .called ⟨0⟩ .begin (.error e) ∉ h'.journal := fun e hmem => by
    have hmem' := Event.mem_toldIn.mpr hmem
    rw [htold] at hmem'
    simp at hmem'
  obtain ⟨-, values, errors, -, -, q', hq', hands, -⟩ :=
    hexact 3 5 Late.stocked h' _ result h'.journal rfl rfl rfl hrun hj hquiet hbegun
  obtain ⟨q'', hq'', hstate⟩ := (Option.any_eq_true _ _).mp hchecked
  cases hq'.symm.trans hq''
  obtain ⟨hpending, hflowing⟩ := of_decide_eq_true hstate
  exact ⟨h', _, q', values, errors, result, rfl, hq', hrun, hands, hpending, hflowing, htold,
    hresult, fun h'' events hsteps hj hquiet =>
      hpause h' h'' q' events hq' hflowing hsteps hj hquiet⟩

end Host
end TreeStream
