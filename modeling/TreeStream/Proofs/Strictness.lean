import TreeStream.Proofs.Reentrance
import TreeStream.Proofs.TwinSessions
import TreeStream.Proofs.Warnings

/-!
# Strict checks only warn

A session is repeated with other strict checks in its requests. Both runs end in hosts that differ
in the checks and in warnings alone, and under strict checks each replacement of a custom value has
its warning.
-/

namespace TreeStream

variable {κ σ : Type}

/-- Without wrappers a nested pass tries nothing that is behind on one side. -/
theorem unwrapped_nested : false = true → RequestId → False := nofun

theorem unwrapped_refused :
    false = true → RequestId → RowId → ∀ e, RenderError.IsRefusal κ e → False := nofun

/-- Checks may be strict on one side only, so warnings do not count. -/
def loosening (start : σ) : Twinning κ σ σ where
  wraps := false
  lax := true
  warned := false
  state _ s s' := s' = s
  spoils _ := False
  inhabited := ⟨start⟩
  unwarned h := absurd h Bool.false_ne_true
  nested := unwrapped_nested
  refused := unwrapped_refused

theorem loosening_lax {start : σ} : (loosening (κ := κ) start).lax ≠ false :=
  Bool.true_eq_false.mp

/-- The same move, but for the strict checks of the request that it makes. -/
inductive Move.SameButStrict : Move κ σ → Move κ σ → Prop
  | refl (move : Move κ σ) : SameButStrict move move
  | create (settings : RequestSettings κ) (strict : Bool) (model : Model κ) :
    SameButStrict (.create settings model) (.create { settings with strict := strict } model)
  | stream (settings : RequestSettings κ) (limit : Nat) (strict : Bool) (model : Model κ) :
    SameButStrict (.stream settings limit model)
      (.stream { settings with strict := strict } limit model)

def Move.strict? : Move κ σ → Option Bool
  | create settings _ => some settings.strict
  | stream settings _ _ => some settings.strict
  | _ => none

namespace Matches

open Host

variable {user : UserCode κ σ} {start : σ}

theorem loosened (n : Nat) {x x' : Move κ σ} (h : x.SameButStrict x') :
    Matches (loosening start) (Host.move user n x) fun m => Host.move user m x' := by
  cases h with
  | refl => exact move (fun _ _ _ => Iff.rfl) (.refl user) n (.refl x)
  | create settings strict model =>
    exact bind (newRequest (fun hlax => absurd hlax loosening_lax) (.refl model)) fun _ => pure _
  | stream settings limit strict model =>
    exact bind (newStream (fun hlax => absurd hlax loosening_lax) (.refl model) limit)
      fun _ => pure _

theorem loosenedMoves (n : Nat) {xs xs' : List (Move κ σ)}
    (h : List.Forall₂ Move.SameButStrict xs xs') :
    Matches (loosening start) (Host.moves user n xs) fun m => Host.moves user m xs' := by
  induction h with
  | nil => exact pure []
  | cons hx _ ih =>
    simp only [Host.moves, List.mapM_cons]
    exact bind (loosened n hx) fun _ => bind ih fun _ => pure _

end Matches

namespace Host

theorem moves_cons {user : UserCode κ σ} {n : Nat} {x : Move κ σ} {xs : List (Move κ σ)}
    {received : List (Option Received)} {h h' : Host κ σ}
    (hrun : moves user n (x :: xs) h = some (received, h')) :
    ∃ first rest h₁, received = first :: rest ∧ move user n x h = some (first, h₁) ∧
      moves user n xs h₁ = some (rest, h') := by
  simp only [moves, List.mapM_cons] at hrun
  obtain ⟨⟨first, h₁⟩, hmove, hrest⟩ := Option.bind_eq_some_iff.mp hrun
  obtain ⟨⟨rest, h₂⟩, hmoves, hend⟩ := Option.bind_eq_some_iff.mp hrest
  cases hend
  exact ⟨first, rest, h₁, rfl, hmove, hmoves⟩

theorem steps_of_moves {user : UserCode κ σ} {n : Nat} {xs : List (Move κ σ)}
    {received : List (Option Received)} {h h' : Host κ σ}
    (hrun : moves user n xs h = some (received, h')) :
    Relation.ReflTransGen (Step user fun _ => True) h h' := by
  induction xs generalizing h received with
  | nil =>
    cases hrun
    exact .refl
  | cons x xs ih =>
    obtain ⟨first, rest, h₁, -, hmove, hmoves⟩ := moves_cons hrun
    exact .head (Step.of_move hmove) (ih hmoves)

/-- Whether the checks of the requests are strict, in the order in which they were made. -/
def stricts (h : Host κ σ) : List Bool := h.requests.toList.map fun q => q.settings.strict

theorem stricts_eq {h h' : Host κ σ} (hchecks : ∀ r, h'.checks r = h.checks r) :
    h'.stricts = h.stricts := by
  apply List.ext_getElem?
  intro i
  have hi := congrArg (Option.map Prod.fst) (hchecks ⟨i⟩)
  simpa [checks, stricts, Option.map_map, Function.comp_def] using hi

theorem stricts_of_move {user : UserCode κ σ} {n : Nat} {x : Move κ σ}
    {received : Option Received} {h h' : Host κ σ}
    (hrun : move user n x h = some (received, h')) :
    h'.stricts = h.stricts ++ x.strict?.toList := by
  have hkept : (∀ r, Respects (Warned r) (move user n x)) → x.strict? = none →
      h'.stricts = h.stricts ++ x.strict?.toList := by
    intro hrespects hnone
    rw [hnone, Option.toList_none, List.append_nil]
    exact stricts_eq fun r => (hrespects r hrun).1
  cases x with
  | create settings model =>
    obtain ⟨⟨r, hmade⟩, -⟩ := run_aside.mp hrun
    rw [run_newRequest] at hmade
    cases hmade
    simp [stricts, Move.strict?, Request.ofModel]
  | stream settings limit model =>
    obtain ⟨⟨r, hmade⟩, -⟩ := run_aside.mp hrun
    rw [newStream, run_bind, run_newRequest] at hmade
    cases hmade
    simp [stricts, Move.strict?, Request.ofModel]
  | script script =>
    refine hkept (fun r => ?_) rfl
    have F := frames_warned user r
    exact F.bind (F.script (F.perform n) script) fun _ => F.toSurrounds.pure _
  | task =>
    refine hkept (fun r => ?_) rfl
    have F := frames_warned user r
    refine F.bind F.takeTask fun task => ?_
    cases task with
    | none => exact Surrounds.failure
    | some task => exact F.bind (F.runTask n task) fun _ => F.toSurrounds.pure _
  | receive r' =>
    refine hkept (fun r => ?_) rfl
    exact Surrounds.map (frames_warned user r).receive
  | abandon r' =>
    refine hkept (fun r => ?_) rfl
    have F := frames_warned user r
    exact F.bind F.abandonStream fun _ => F.toSurrounds.pure _

/-- The requests of a session have the checks that they were made with. -/
theorem stricts_of_moves {user : UserCode κ σ} {n : Nat} {xs : List (Move κ σ)}
    {received : List (Option Received)} {h h' : Host κ σ}
    (hrun : moves user n xs h = some (received, h')) :
    h'.stricts = h.stricts ++ xs.filterMap Move.strict? := by
  induction xs generalizing h received with
  | nil =>
    cases hrun
    exact (List.append_nil _).symm
  | cons x xs ih =>
    obtain ⟨first, rest, h₁, -, hmove, hmoves⟩ := moves_cons hrun
    rw [ih hmoves, stricts_of_move hmove, List.append_assoc]
    cases hx : x.strict? with
    | none => simp [hx]
    | some strict => simp [hx]

/-- Strict checks change nothing but warnings. If a session is repeated with other checks in its
requests, all runs with a large bound end in the same host up to these checks and to warnings, with
the same promises, queues, requests and state of the user and the same events in the same order, and
the consumers of streams receive the same. In either run a request with strict checks that reports
its warnings tells exactly one for each custom value that it replaces, in the order of the
replacements, and a request without strict checks tells none. -/
theorem strict_checks_only_warn {user : UserCode κ σ} {xs xs' : List (Move κ σ)}
    (hxs : List.Forall₂ Move.SameButStrict xs xs') {start : σ} {outcomes : Array (Outcome κ)}
    {n : Nat} {received : List (Option Received)} {h : Host κ σ}
    (hrun : moves user n xs (fresh start outcomes) = some (received, h)) :
    ∃ N h', (∀ m ≥ N, moves user m xs' (fresh start outcomes) = some (received, h')) ∧
      (h'.user = h.user ∧ h'.promises = h.promises ∧ h'.queue = h.queue ∧
        h'.scheduled = h.scheduled ∧ h'.tasks = h.tasks ∧ h'.inPass = h.inPass) ∧
      (h'.requests.size = h.requests.size ∧
        ∀ (r : RequestId) q, h.requests[r.index]? = some q → ∃ strict,
          h'.requests[r.index]? =
            some { q with settings := { q.settings with strict := strict } }) ∧
      (h.stricts = xs.filterMap Move.strict? ∧ h'.stricts = xs'.filterMap Move.strict?) ∧
      h'.journal.filter (fun e => !e.isWarning) = h.journal.filter (fun e => !e.isWarning) ∧
      ∀ g, g = h ∨ g = h' → ∀ (r : RequestId) q, g.requests[r.index]? = some q →
        (q.settings.strict = true → q.settings.reportsWarnings = true →
          ∃ texts : List String,
            g.journal.reverse.filterMap (Event.substitution? r) =
              texts.flatMap (fun text => [some text, none]) ∧
            ∀ text ∈ texts, ∃ (parent : Container κ) (key : String),
              text = Refusal.customWarning parent key) ∧
        (q.settings.strict = false → ∀ text, .warning r text ∉ g.journal) := by
  have hstart : (fresh start outcomes).Twin (loosening start) (fun _ => none)
      (fresh start outcomes) :=
    { promises := rfl, queue := rfl, scheduled := rfl, tasks := rfl, inPass := rfl, size := rfl
      requests := fun r q q' hq => nomatch hq
      state := rfl, journal := rfl }
  have hmatches : Matches (loosening start) (moves user n xs) fun m => moves user m xs' :=
    .loosenedMoves n hxs
  obtain ⟨-, hmatch⟩ := hmatches hrun
  obtain ⟨N, h', hrun', ht⟩ := hmatch _ hstart fun _ _ => id
  refine ⟨N, h', hrun', ⟨ht.state, ht.promises, ht.queue, ht.scheduled, ht.tasks, ht.inPass⟩,
    ⟨ht.size, ?_⟩, ⟨stricts_of_moves hrun, stricts_of_moves (hrun' N le_rfl)⟩, ht.journal, ?_⟩
  · intro r q hq
    obtain ⟨q', hq', hsegments⟩ := ht.request hq
    cases hsegments with
    | intro segments strict _ hsegments =>
      exact ⟨strict, by rw [hq', Request.twin, hsegments.eq]⟩
  · intro g hg r q hq
    have hreach : Reachable user (fun _ => True) g := by
      rcases hg with rfl | rfl
      · exact ⟨start, outcomes, steps_of_moves hrun⟩
      · exact ⟨start, outcomes, steps_of_moves (hrun' N le_rfl)⟩
    have hpaired := hreach.paired r
    have hwarns : g.warns? r = some (q.settings.strict && q.settings.reportsWarnings) := by
      rw [warns?, checks, hq]
      rfl
    constructor
    · intro hstrict hreports
      rw [hwarns, hstrict, hreports] at hpaired
      exact hpaired.texts
    · intro hstrict text
      rw [hwarns, hstrict, Bool.false_and] at hpaired
      exact hpaired.not_warned text

end Host

/-! ## A custom value at once and one that is late -/

namespace Late

def custom (name : String) : Model Unit := .custom name ⟨(), .empty⟩

def customs : Model Unit :=
  .array [custom "First", .element
    { renderable := .function "Late" ⟨(), .empty⟩, key := none, props := .empty }]

def checked (strict : Bool) : List (Move Unit Unit) :=
  [.create { settings with strict := strict, reportsWarnings := true } customs,
    .script (do
      opening
      .call (.settle ⟨0⟩ (.ok (custom "Second"))) fun _ => .call .runUntilIdle fun _ => .done ())]

end Late

namespace Host

/-- Two custom values are replaced, with two warnings or with none. -/
theorem strict_checks_only_warn_late :
    ∃ (h h' : Host Unit Unit) (N : Nat),
      moves Late.user 20 (Late.checked true) (fresh () #[]) = some ([none, none], h) ∧
      (∀ m ≥ N, moves Late.user m (Late.checked false) (fresh () #[]) =
        some ([none, none], h')) ∧
      (h.journal.filter Event.isWarning).length = 2 ∧
      (∀ text, .warning ⟨0⟩ text ∉ h'.journal) ∧
      h'.journal.filter (fun e => !e.isWarning) = h.journal.filter (fun e => !e.isWarning) ∧
      h.completed ⟨0⟩ =
        [Row.ofModel (RowId.ofNat 0) "[null,\"$1\"]", Row.ofModel (RowId.ofNat 1) "null"] := by
  have hplay : (moves Late.user 20 (Late.checked true) (fresh () #[])).any (fun ended =>
      decide (ended.1 = [none, none] ∧ (ended.2.journal.filter Event.isWarning).length = 2 ∧
        ended.2.completed ⟨0⟩ = [Row.ofModel (RowId.ofNat 0) "[null,\"$1\"]",
          Row.ofModel (RowId.ofNat 1) "null"])) = true := by
    decide +kernel
  obtain ⟨⟨received, h⟩, hrun, hend⟩ := (Option.any_eq_true _ _).mp hplay
  obtain ⟨rfl, hwarnings, hrows⟩ := of_decide_eq_true hend
  have hmoves : List.Forall₂ Move.SameButStrict (Late.checked true) (Late.checked false) :=
    .cons (.create { Late.settings with strict := true, reportsWarnings := true } false
      Late.customs) (.cons (.refl _) .nil)
  obtain ⟨N, h', hrun', -, -, ⟨-, hloose⟩, hjournal, hwarned⟩ :=
    strict_checks_only_warn hmoves hrun
  refine ⟨h, h', N, hrun, hrun', hwarnings, ?_, hjournal, hrows⟩
  have hfirst : h'.stricts[0]? = some false := by
    rw [hloose]
    rfl
  rw [stricts, List.getElem?_map, Array.getElem?_toList] at hfirst
  obtain ⟨q, hq, hstrict⟩ := Option.map_eq_some_iff.mp hfirst
  exact (hwarned h' (.inr rfl) ⟨0⟩ q hq).2 hstrict

end Host
end TreeStream
