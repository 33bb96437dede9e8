import TreeStream.Proofs.Diaries
import TreeStream.Proofs.Sessions

/-!
# Reactions run once

A promise is dealt with by three calls: it is settled, its status is read, and a pair of callbacks
is registered. The diary of a run tells what each of them called while it was answered. From it the
promise can be followed through the run: until it settles pairs are kept and nothing is called, the
settlement calls one callback of each pair in order, and from then on a pair has its callback called
as it is registered.
-/

namespace TreeStream

variable {κ σ α : Type}

def HostCall.promise? : HostCall κ → Option PromiseId
  | .settle p _ => some p
  | .status p => some p
  | .subscribe p _ _ => some p
  | _ => none

def Reaction.call (outcome : Outcome κ) (reaction : Reaction κ) : HostCall κ :=
  .invoke (Host.Reaction.pick reaction outcome)

namespace PromiseCell

/-- What a call does to the promise, and what it calls in turn. -/
inductive Takes (p : PromiseId) : PromiseCell κ → Made κ → PromiseCell κ → Prop
  | read (cell : PromiseCell κ) : Takes p cell ⟨.status p, cell.status, []⟩ cell
  | register (rs : List (Reaction κ)) (f g : Callback κ) :
    Takes p ⟨.pending, rs⟩ ⟨.subscribe p f g, (), []⟩ ⟨.pending, rs ++ [⟨f, g⟩]⟩
  | run (outcome : Outcome κ) (rs : List (Reaction κ)) (f g : Callback κ) :
    Takes p ⟨.settled outcome, rs⟩ ⟨.subscribe p f g, (), [Reaction.call outcome ⟨f, g⟩]⟩
      ⟨.settled outcome, rs⟩
  | settle (outcome : Outcome κ) (rs : List (Reaction κ)) :
    Takes p ⟨.pending, rs⟩ ⟨.settle p outcome, (), rs.map (Reaction.call outcome)⟩
      ⟨.settled outcome, []⟩
  | ignore (outcome outcome' : Outcome κ) (rs : List (Reaction κ)) :
    Takes p ⟨.settled outcome, rs⟩ ⟨.settle p outcome', (), []⟩ ⟨.settled outcome, rs⟩
  | other (cell : PromiseCell κ) {made : Made κ} (h : made.call.promise? ≠ some p) :
    Takes p cell made cell

/-- What becomes of the promise through these calls. -/
inductive Lives (p : PromiseId) : PromiseCell κ → List (Made κ) → PromiseCell κ → Prop
  | nil (cell : PromiseCell κ) : Lives p cell [] cell
  | cons {cell cell₁ cell' : PromiseCell κ} {made : Made κ} {log : List (Made κ)}
    (h : Takes p cell made cell₁) (hs : Lives p cell₁ log cell') : Lives p cell (made :: log) cell'

theorem Lives.append {p : PromiseId} {cell cell₁ cell' : PromiseCell κ} {log log' : List (Made κ)}
    (h : Lives p cell log cell₁) (h' : Lives p cell₁ log' cell') :
    Lives p cell (log ++ log') cell' := by
  induction h with
  | nil => exact h'
  | cons h _ ih => exact .cons h (ih h')

end PromiseCell

/-- The call finds the promise pending and leaves it so: it calls nothing. -/
structure Made.FindsPending (p : PromiseId) (made : Made κ) : Prop where
  settle : ∀ outcome, made.call ≠ .settle p outcome
  status : ∀ reply inner, made = ⟨.status p, reply, inner⟩ → reply = .pending
  subscribe : ∀ f g, made.call = .subscribe p f g → made.inner = []

/-- The call finds the promise settled: a settlement calls nothing, and the callback of a pair is
called before the pair counts as registered. -/
structure Made.FindsSettled (p : PromiseId) (outcome : Outcome κ) (made : Made κ) : Prop where
  settle : ∀ outcome', made.call = .settle p outcome' → made.inner = []
  status : ∀ reply inner, made = ⟨.status p, reply, inner⟩ → reply = .settled outcome
  subscribe : ∀ f g, made.call = .subscribe p f g → made.inner = [Reaction.call outcome ⟨f, g⟩]

def Made.pair? (p : PromiseId) (made : Made κ) : Option (Reaction κ) :=
  match made.call with
  | .subscribe q f g => if q = p then some ⟨f, g⟩ else none
  | _ => none

/-- A call that deals with something else finds nothing out and registers no pair. -/
theorem Made.finds_of_other {p : PromiseId} {made : Made κ} (h : made.call.promise? ≠ some p) :
    made.FindsPending p ∧ (∀ outcome, made.FindsSettled p outcome) ∧ made.pair? p = none := by
  have hsettle : ∀ outcome, made.call ≠ .settle p outcome := fun _ he => h (by rw [he]; rfl)
  have hstatus : ∀ reply inner, made ≠ ⟨.status p, reply, inner⟩ := fun _ _ he =>
    h (by rw [he]; rfl)
  have hsubscribe : ∀ f g, made.call ≠ .subscribe p f g := fun _ _ he => h (by rw [he]; rfl)
  refine ⟨⟨hsettle, fun _ _ he => absurd he (hstatus _ _),
      fun _ _ he => absurd he (hsubscribe _ _)⟩,
    fun outcome => ⟨fun _ he => absurd he (hsettle _), fun _ _ he => absurd he (hstatus _ _),
      fun _ _ he => absurd he (hsubscribe _ _)⟩, ?_⟩
  unfold Made.pair?
  split
  · rename_i q f g hcall
    exact if_neg fun hq : q = p => hsubscribe f g (hq ▸ hcall)
  · rfl

/-- What becomes of the promise and its pairs. If it is pending, it may stay so, and every pair is
kept. Otherwise it is settled once: this one call calls the callback of each pair that was kept, in
order, and all later calls find it settled. If it has settled before, all calls find it so. -/
def PromiseCell.Reacts (p : PromiseId) (cell : PromiseCell κ) (log : List (Made κ))
    (cell' : PromiseCell κ) : Prop :=
  match cell.status with
  | .pending =>
    ((∀ made ∈ log, made.FindsPending p) ∧
      cell' = ⟨.pending, cell.reactions ++ log.filterMap (Made.pair? p)⟩) ∨
    ∃ before made after outcome, log = before ++ made :: after ∧
      (∀ made ∈ before, made.FindsPending p) ∧
      made.call = .settle p outcome ∧
      made.inner =
        (cell.reactions ++ before.filterMap (Made.pair? p)).map (Reaction.call outcome) ∧
      (∀ made ∈ after, made.FindsSettled p outcome) ∧ cell' = ⟨.settled outcome, []⟩
  | .settled outcome => (∀ made ∈ log, made.FindsSettled p outcome) ∧ cell' = cell

namespace PromiseCell

variable {p : PromiseId} {cell cell' : PromiseCell κ} {log : List (Made κ)}

theorem Lives.of_settled {outcome : Outcome κ} {rs : List (Reaction κ)}
    (h : Lives p ⟨.settled outcome, rs⟩ log cell') :
    (∀ made ∈ log, made.FindsSettled p outcome) ∧ cell' = ⟨.settled outcome, rs⟩ := by
  generalize hcell : (⟨.settled outcome, rs⟩ : PromiseCell κ) = cell at h
  induction h with
  | nil => exact ⟨List.forall_mem_nil _, rfl⟩
  | @cons cell cell₁ _ made _ h _ ih =>
    subst hcell
    have hfinds : made.FindsSettled p outcome ∧ cell₁ = ⟨.settled outcome, rs⟩ := by
      cases h with
      | read => exact ⟨⟨nofun, fun _ _ he => by cases he; rfl, nofun⟩, rfl⟩
      | run => exact ⟨⟨nofun, nofun, fun _ _ he => by cases he; rfl⟩, rfl⟩
      | ignore => exact ⟨⟨fun _ _ => rfl, nofun, nofun⟩, rfl⟩
      | other _ hother => exact ⟨(Made.finds_of_other hother).2.1 outcome, rfl⟩
    obtain ⟨hall, hend⟩ := ih hfinds.2.symm
    exact ⟨List.forall_mem_cons.mpr ⟨hfinds.1, hall⟩, hend.trans hfinds.2⟩

/-- A call that leaves the promise pending comes before what becomes of it later. -/
theorem Reacts.cons_pending {made : Made κ} {rs : List (Reaction κ)}
    (hfinds : made.FindsPending p)
    (h : Reacts p ⟨.pending, rs ++ (made.pair? p).toList⟩ log cell') :
    Reacts p ⟨.pending, rs⟩ (made :: log) cell' := by
  have hpairs : ∀ log : List (Made κ), rs ++ (made :: log).filterMap (Made.pair? p) =
      rs ++ (made.pair? p).toList ++ log.filterMap (Made.pair? p) := by
    intro log
    rw [List.append_assoc, List.filterMap_cons]
    cases made.pair? p <;> rfl
  rcases h with ⟨hall, hend⟩ | ⟨before, m, after, outcome, rfl, hall, hcall, hinner, hafter, hend⟩
  · refine .inl ⟨List.forall_mem_cons.mpr ⟨hfinds, hall⟩, ?_⟩
    rw [hpairs]
    exact hend
  · refine .inr ⟨made :: before, m, after, outcome, rfl, List.forall_mem_cons.mpr ⟨hfinds, hall⟩,
      hcall, ?_, hafter, hend⟩
    rw [hpairs]
    exact hinner

theorem Lives.reacts (h : Lives p cell log cell') : cell.Reacts p log cell' := by
  induction h with
  | nil cell =>
    obtain ⟨status, rs⟩ := cell
    cases status with
    | pending =>
      exact .inl ⟨List.forall_mem_nil _,
        congrArg (PromiseCell.mk .pending) (List.append_nil rs).symm⟩
    | settled outcome => exact ⟨List.forall_mem_nil _, rfl⟩
  | @cons cell cell₁ cell' made log h hs ih =>
    obtain ⟨status, rs⟩ := cell
    cases status with
    | settled outcome => exact (Lives.cons h hs).of_settled
    | pending =>
      cases h with
      | read =>
        refine .cons_pending ⟨nofun, fun _ _ he => by cases he; rfl, nofun⟩ ?_
        rwa [← List.append_nil rs] at ih
      | register _ f g =>
        refine .cons_pending ⟨nofun, nofun, fun _ _ _ => rfl⟩ ?_
        rwa [show Made.pair? p ⟨.subscribe p f g, (), []⟩ = some ⟨f, g⟩ from if_pos rfl]
      | settle outcome =>
        obtain ⟨hall, hend⟩ := hs.of_settled
        refine .inr ⟨[], _, log, outcome, rfl, List.forall_mem_nil _, rfl, ?_, hall, hend⟩
        exact congrArg (List.map (Reaction.call outcome)) (List.append_nil rs).symm
      | other _ hother =>
        obtain ⟨hfinds, -, hpair⟩ := Made.finds_of_other hother
        refine .cons_pending hfinds ?_
        rw [hpair]
        rwa [← List.append_nil rs] at ih

end PromiseCell

/-- The promise with this number; one that is not made yet is pending. -/
def cellAt (promises : Array (PromiseCell κ)) (p : PromiseId) : PromiseCell κ :=
  (promises[p.index]?).getD {}

section
variable {promises : Array (PromiseCell κ)} {p q : PromiseId} {cell : PromiseCell κ}

theorem cellAt_of_getElem? (h : promises[p.index]? = some cell) : cellAt promises p = cell := by
  rw [cellAt, h, Option.getD_some]

theorem cellAt_push : cellAt (promises.push {}) p = cellAt promises p := by
  rw [cellAt, cellAt, Array.getElem?_push]
  split
  · rename_i h
    rw [h, Array.getElem?_size]
    rfl
  · rfl

theorem cellAt_modify_self (h : promises[p.index]? = some cell)
    (f : PromiseCell κ → PromiseCell κ) : cellAt (promises.modify p.index f) p = f cell := by
  rw [cellAt, Array.getElem?_modify, if_pos rfl, h, Option.map_some, Option.getD_some]

theorem cellAt_modify_ne (h : q ≠ p) (f : PromiseCell κ → PromiseCell κ) :
    cellAt (promises.modify p.index f) q = cellAt promises q := by
  have hindex : p.index ≠ q.index := fun he => h (congrArg PromiseId.mk he.symm)
  rw [cellAt, cellAt, Array.getElem?_modify, if_neg hindex]

end

/-- Every promise goes through these calls from the one state to the other. -/
def Obeys (base : Array (PromiseCell κ)) (log : List (Made κ))
    (promises : Array (PromiseCell κ)) : Prop :=
  ∀ p, (cellAt base p).Lives p log (cellAt promises p)

namespace Obeys

variable {base promises promises₁ : Array (PromiseCell κ)} {log log' : List (Made κ)}

theorem refl (base : Array (PromiseCell κ)) : Obeys base [] base := fun _ => .nil _

theorem append (h : Obeys base log promises) (h' : Obeys promises log' promises₁) :
    Obeys base (log ++ log') promises₁ := fun p => (h p).append (h' p)

theorem cons_other {made : Made κ} (hcall : made.call.promise? = none)
    (h : Obeys base log promises) : Obeys base (made :: log) promises := fun p =>
  .cons (.other _ (hcall ▸ nofun)) (h p)

theorem cons {p : PromiseId} {made : Made κ} (hcall : made.call.promise? = some p)
    (hp : (cellAt base p).Takes p made (cellAt promises p))
    (hother : ∀ q, q ≠ p → cellAt promises q = cellAt base q)
    (h : Obeys promises log promises₁) : Obeys base (made :: log) promises₁ := by
  intro q
  by_cases hq : q = p
  · subst hq
    exact .cons hp (h q)
  · refine .cons (.other _ ?_) (hother q hq ▸ h q)
    rw [hcall]
    exact fun he => hq (Option.some.inj he).symm

end Obeys

namespace Host

/-! ## Answers to calls that deal with promises -/

section
variable {user : UserCode κ σ} {n : Nat} {call : (c : HostCall κ) → HostM κ σ c.Reply}
  {h : Host κ σ} {p : PromiseId} {cell : PromiseCell κ} {outcome outcome' : Outcome κ}
  {f g : Callback κ}

theorem run_promise (hcell : h.promises[p.index]? = some cell) :
    promise p h = some (cell, h) := by
  simp only [promise, run_bind, run_get, Option.bind_some, hcell]
  rfl

/-- Nothing is answered about a promise that is not made yet. -/
theorem promise_of_answer {c : HostCall κ} (hc : c.promise? = some p) {a : c.Reply}
    {h' : Host κ σ} (hrun : answer user n call c h = some (a, h')) :
    ∃ cell, h.promises[p.index]? = some cell := by
  cases hcell : h.promises[p.index]? with
  | some cell => exact ⟨cell, rfl⟩
  | none =>
    have hnone : promise p h = none := by
      simp only [promise, run_bind, run_get, Option.bind_some, hcell, run_failure]
    cases c with
    | settle _ _ =>
      cases hc
      rw [answer, run_bind, settleCell, run_bind, hnone] at hrun
      cases hrun
    | status _ =>
      cases hc
      rw [answer, run_bind, hnone] at hrun
      cases hrun
    | subscribe _ _ _ =>
      cases hc
      rw [answer, run_bind, hnone] at hrun
      cases hrun
    | _ => cases hc

theorem run_status (hcell : h.promises[p.index]? = some cell) :
    answer user n call (.status p) h = some (cell.status, h) := by
  simp only [answer, run_bind, run_promise hcell, Option.bind_some]
  rfl

theorem run_subscribe_pending (hcell : h.promises[p.index]? = some cell)
    (hpending : cell.status = .pending) :
    answer user n call (.subscribe p f g) h = some ((), { h with
      promises := h.promises.modify p.index fun cell =>
        { cell with reactions := cell.reactions ++ [⟨f, g⟩] } }) := by
  simp only [answer, run_bind, run_promise hcell, Option.bind_some, hpending]
  rfl

theorem run_subscribe_settled (hcell : h.promises[p.index]? = some cell)
    (hsettled : cell.status = .settled outcome) :
    answer user n call (.subscribe p f g) h = call (Reaction.call outcome ⟨f, g⟩) h := by
  simp only [answer, run_bind, run_promise hcell, Option.bind_some, hsettled]
  rfl

theorem run_settle_pending (hcell : h.promises[p.index]? = some cell)
    (hpending : cell.status = .pending) :
    answer user n call (.settle p outcome) h =
      (cell.reactions.forM fun reaction => call (Reaction.call outcome reaction) : HostM κ σ Unit)
        { h with promises := h.promises.modify p.index fun _ =>
            { status := .settled outcome, reactions := [] } } := by
  simp only [answer, settleCell, run_bind, run_promise hcell, Option.bind_some, hpending]
  rfl

theorem run_settle_settled (hcell : h.promises[p.index]? = some cell)
    (hsettled : cell.status = .settled outcome) :
    answer user n call (.settle p outcome') h = some ((), h) := by
  simp only [answer, settleCell, run_bind, run_promise hcell, Option.bind_some, hsettled]
  rfl

end

/-! ## Keeping a diary -/

section
variable {user : UserCode κ σ} {n : Nat} {h h' : Host κ (σ × Diary κ)}

theorem direct_of_watch {c : HostCall κ} {a : c.Reply}
    (hrun : watch user n c h = some (a, h')) : h'.user.2.direct = h.user.2.direct ++ [c] := by
  cases n with
  | zero => cases hrun
  | succ n =>
    rw [run_watch] at hrun
    obtain ⟨⟨b, h₁⟩, -, hend⟩ := Option.map_eq_some_iff.mp hrun
    cases hend
    rfl

/-- Calls made one after the other are entered in that order. -/
theorem direct_of_forM {β : Type} {f : β → Callback κ} {xs : List β} {u : Unit}
    (hrun : (xs.forM fun x => watch user n (.invoke (f x)) : HostM κ (σ × Diary κ) Unit) h =
      some (u, h')) :
    h'.user.2.direct = h.user.2.direct ++ xs.map fun x => .invoke (f x) := by
  induction xs generalizing h with
  | nil =>
    cases hrun
    exact (List.append_nil _).symm
  | cons x xs ih =>
    obtain ⟨⟨u₁, h₁⟩, hfirst, hrest⟩ := Option.bind_eq_some_iff.mp hrun
    rw [ih hrest, direct_of_watch hfirst, List.append_assoc]
    rfl

end

end Host

/-- A host and one with a diary that promises have obeyed so far. -/
def watching (start : σ) (base : Array (PromiseCell κ)) : Twinning κ σ (σ × Diary κ) where
  wraps := false
  lax := false
  warned := true
  state promises s s' := s'.1 = s ∧ Obeys base s'.2.log promises
  spoils _ := False
  inhabited := ⟨(start, {})⟩
  unwarned _ := ⟨rfl, rfl⟩
  nested h := absurd h Bool.false_ne_true
  refused h := absurd h Bool.false_ne_true

/-- With a new diary the call is answered alike, and promises obey the entry it will make. -/
def AnswersAlike (start : σ) (user : UserCode κ σ) (n : Nat) (c : HostCall κ) : Prop :=
  ∀ {calls : RequestId → Nat} {tried : Tried},
    Legal (watching (κ := κ) start #[]) calls tried → ∀ ⦃h a h₁⦄,
      Host.answer user n (Host.perform user n) c h = some (a, h₁) → h.Steady h₁ ∧
        ∀ h', h.Twin (watching start h.promises) tried h' → h.Busy calls → h'.user.2 = {} →
          ∃ N h₁' base, (∀ m ≥ N,
            Host.answer user.kept m (Host.watch user m) c h' = some (a, h₁')) ∧
            h₁.Twin (watching start base) tried h₁' ∧
            Obeys h.promises (⟨c, a, h₁'.user.2.direct⟩ :: h₁'.user.2.log) h₁.promises

namespace Mirrors

open Host

variable {start : σ} {user : UserCode κ σ} {n : Nat}

/-- The answer is entered into the diary of the one who made the call. -/
theorem watch (c : HostCall κ) (halike : AnswersAlike start user n c)
    (base : Array (PromiseCell κ)) {calls : RequestId → Nat} {tried : Tried}
    (hl : Legal (watching start base) calls tried) : Tracks (watching start base) calls tried Eq
      (Host.perform user (n + 1) c) fun m => Host.watch user m c := by
  intro h a h₁ hrun
  obtain ⟨hsteady, hmatch⟩ := halike hl hrun
  refine ⟨hsteady, fun h' ht hb _ => ?_⟩
  have hempty : (watching start h.promises).state h.promises h.user (h'.user.1, {}) :=
    ⟨ht.state.1, .refl _⟩
  have hnew : h.Twin (watching start h.promises) tried (h'.withUser (h'.user.1, {})) :=
    ht.restate (V := watching start h.promises) rfl rfl rfl hempty
  obtain ⟨N, h₁', base', hrun', ht₁, hobeys⟩ := hmatch _ hnew hb rfl
  have hentered : (watching start base).state h₁.promises h₁.user
      (h₁'.user.1, h'.user.2.enter c a h₁'.user.2) :=
    ⟨ht₁.state.1, ht.state.2.append hobeys⟩
  refine ⟨N + 1, a, _, fun m hm => ?_, rfl,
    ht₁.restate (V := watching start base) rfl rfl rfl hentered⟩
  obtain ⟨d, rfl⟩ := Nat.exists_eq_add_of_le' (Nat.le_of_add_left_le hm)
  refine (run_watch d c h').trans ?_
  rw [hrun' d (Nat.le_of_succ_le_succ hm)]
  rfl

end Mirrors

namespace AnswersAlike

open Host

variable {start : σ} {user : UserCode κ σ} {n : Nat}
  (U : ∀ base, TwinUsers (watching start base) user user.kept (perform user n) fun m =>
    watch user m)

include U in
theorem quiet {c : HostCall κ} (hc : c.settles = false) (hp : c.promise? = none) :
    AnswersAlike start user n c := by
  intro calls tried hl h a h₁ hrun
  obtain ⟨hsteady, hmatch⟩ := Mirrors.answer_quiet (U h.promises) hl n hc h hrun
  refine ⟨hsteady, fun h' ht hb _ => ?_⟩
  obtain ⟨N, _, h₁', hrun', rfl, ht₁⟩ := hmatch h' ht hb fun _ _ => id
  exact ⟨N, h₁', _, hrun', ht₁, ht₁.state.2.cons_other hp⟩

theorem newPromise : AnswersAlike start user n .newPromise := by
  intro calls tried hl h a h₁ hrun
  cases hrun
  refine ⟨.of_eq rfl rfl, fun h' ht _ hnew => ?_⟩
  have hlives : Obeys h.promises [] (h.promises.push {}) := fun p => by
    rw [cellAt_push]
    exact .nil _
  refine ⟨0, { h' with promises := h'.promises.push {} }, h.promises, fun m _ => ?_, ?_, ?_⟩
  · rw [← ht.promises]
    rfl
  · exact { ht with
      promises := congrArg (Array.push · {}) ht.promises
      state := ⟨ht.state.1, by rw [hnew]; exact hlives⟩ }
  · rw [hnew]
    exact hlives.cons_other rfl

theorem status (p : PromiseId) : AnswersAlike start user n (.status p) := by
  intro calls tried hl h a h₁ hrun
  obtain ⟨cell, hcell⟩ := promise_of_answer rfl hrun
  rw [run_status hcell] at hrun
  cases hrun
  refine ⟨.refl h, fun h' ht _ hnew => ⟨0, h', _, fun m _ => ?_, ht, ?_⟩⟩
  · exact run_status (ht.promises ▸ hcell)
  · rw [hnew]
    refine Obeys.cons rfl ?_ (fun _ _ => rfl) (.refl _)
    rw [cellAt_of_getElem? hcell]
    exact .read cell

/-- A promise changes on both sides, and a new diary begins. -/
theorem changed {tried : Tried} {h : Host κ σ} {h' : Host κ (σ × Diary κ)}
    (ht : h.Twin (watching start h.promises) tried h') (hnew : h'.user.2 = {}) (p : PromiseId)
    (f : PromiseCell κ → PromiseCell κ) :
    Host.Twin (watching start (h.promises.modify p.index f)) tried
      { h with promises := h.promises.modify p.index f }
      { h' with promises := h'.promises.modify p.index f } := by
  have hrequests : ∀ (r : RequestId) q q', h.requests[r.index]? = some q →
      h'.requests[r.index]? = some q' →
      q.Twin (watching start (h.promises.modify p.index f)) (tried r) q' := by
    intro r q q' hq hq'
    refine (ht.requests r q q' hq hq').restate ?_ ?_ <;> rfl
  have hchanged : (watching start (h.promises.modify p.index f)).state
      (h.promises.modify p.index f) h.user h'.user := ⟨ht.state.1, by rw [hnew]; exact .refl _⟩
  exact { ht with
    promises := congrArg (Array.modify · p.index f) ht.promises
    requests := hrequests
    state := hchanged }

include U in
theorem subscribe (p : PromiseId) (f g : Callback κ) :
    AnswersAlike start user n (.subscribe p f g) := by
  intro calls tried hl h a h₁ hrun
  obtain ⟨cell, hcell⟩ := promise_of_answer rfl hrun
  cases hstatus : cell.status with
  | pending =>
    rw [run_subscribe_pending hcell hstatus] at hrun
    cases hrun
    refine ⟨.of_eq rfl rfl, fun h' ht _ hnew =>
      ⟨0, _, _, fun m _ => run_subscribe_pending (ht.promises ▸ hcell) hstatus, changed ht hnew p _,
        ?_⟩⟩
    dsimp only
    rw [hnew]
    refine Obeys.cons rfl ?_ (fun q hq => cellAt_modify_ne hq _) (.refl _)
    rw [cellAt_modify_self hcell, cellAt_of_getElem? hcell, hstatus]
    obtain ⟨status, reactions⟩ := cell
    cases hstatus
    exact .register reactions f g
  | settled outcome =>
    rw [run_subscribe_settled hcell hstatus] at hrun
    obtain ⟨hsteady, hmatch⟩ := (U h.promises).asks hl (Reaction.call outcome ⟨f, g⟩) h hrun
    refine ⟨hsteady, fun h' ht hb hnew => ?_⟩
    obtain ⟨N, _, h₁', hrun', rfl, ht₁⟩ := hmatch h' ht hb fun _ _ => id
    refine ⟨N, h₁', _, fun m hm => ?_, ht₁, ?_⟩
    · rw [run_subscribe_settled (ht.promises ▸ hcell) hstatus]
      exact hrun' m hm
    · rw [direct_of_watch (hrun' N le_rfl), hnew]
      refine Obeys.cons rfl ?_ (fun _ _ => rfl) ht₁.state.2
      rw [cellAt_of_getElem? hcell]
      obtain ⟨status, reactions⟩ := cell
      cases hstatus
      exact .run outcome reactions f g

include U in
theorem settle (p : PromiseId) (outcome : Outcome κ) :
    AnswersAlike start user n (.settle p outcome) := by
  intro calls tried hl h a h₁ hrun
  obtain ⟨cell, hcell⟩ := promise_of_answer rfl hrun
  cases hstatus : cell.status with
  | pending =>
    rw [run_settle_pending hcell hstatus] at hrun
    have hcalls := Mirrors.forM (fun reaction =>
      (U (h.promises.modify p.index fun _ => { status := .settled outcome, reactions := [] })).asks
        hl (Reaction.call outcome reaction)) cell.reactions
    obtain ⟨hsteady, hmatch⟩ := hcalls _ hrun
    refine ⟨⟨hsteady.journal, hsteady.running⟩, fun h' ht hb hnew => ?_⟩
    obtain ⟨N, _, h₁', hrun', rfl, ht₁⟩ := hmatch _ (changed ht hnew p _) hb fun _ _ => id
    refine ⟨N, h₁', _, fun m hm => ?_, ht₁, ?_⟩
    · rw [run_settle_pending (ht.promises ▸ hcell) hstatus]
      exact hrun' m hm
    · have hdirect := direct_of_forM (hrun' N le_rfl)
      rw [hdirect]
      dsimp only
      rw [hnew]
      refine Obeys.cons rfl ?_ (fun q hq => cellAt_modify_ne hq _) ht₁.state.2
      rw [cellAt_modify_self hcell, cellAt_of_getElem? hcell]
      obtain ⟨status, reactions⟩ := cell
      cases hstatus
      exact .settle outcome reactions
  | settled outcome' =>
    rw [run_settle_settled hcell hstatus] at hrun
    cases hrun
    refine ⟨.refl h, fun h' ht _ hnew => ⟨0, h', _, fun m _ => ?_, ht, ?_⟩⟩
    · exact run_settle_settled (ht.promises ▸ hcell) hstatus
    · rw [hnew]
      refine Obeys.cons rfl ?_ (fun _ _ => rfl) (.refl _)
      rw [cellAt_of_getElem? hcell]
      obtain ⟨status, reactions⟩ := cell
      cases hstatus
      exact .ignore outcome' outcome reactions

include U in
theorem any (c : HostCall κ) : AnswersAlike start user n c := by
  cases c with
  | newPromise => exact newPromise
  | settle p outcome => exact settle U p outcome
  | status p => exact status p
  | subscribe p f g => exact subscribe U p f g
  | _ => exact quiet U rfl rfl

end AnswersAlike

namespace Mirrors

open Host

/-- However deep calls nest, they are answered alike for a user who keeps a diary. -/
theorem watched (start : σ) (user : UserCode κ σ) (n : Nat) (base : Array (PromiseCell κ)) :
    TwinUsers (watching start base) user user.kept (Host.perform user n) fun m =>
      Host.watch user m := by
  have hread : ∀ base P (s : σ) s', (watching (κ := κ) start base).state P s s' → s'.1 = s :=
    fun _ _ _ _ h => h.1
  have hwrite : ∀ base P (s : σ) s' t, (watching (κ := κ) start base).state P s s' →
      (watching start base).state P t (t, s'.2) := fun _ _ _ _ _ h => ⟨rfl, h.2⟩
  induction n generalizing base with
  | zero => exact users_kept (hread base) (hwrite base) fun _ _ => failure
  | succ n ih =>
    exact users_kept (hread base) (hwrite base) fun hl c => watch c (AnswersAlike.any ih c) base hl

end Mirrors
namespace Host

/-- Reactions run once. Whatever a script does and has done in turn, its run can be watched without
a difference, and then every promise is seen to be settled at most once: no callback is called
before, the settlement calls one callback of each pair that waits, in the order of registration, and
a pair that comes later has its callback called before its registration ends. -/
theorem reactions_once (user : UserCode κ σ) (script : Script κ σ α) {n : Nat} {h h' : Host κ σ}
    {a : α} (hrun : script.run (perform user n) h = some (a, h')) :
    ∃ N diary,
      (∀ m ≥ N, script.kept.run (watch user m) (h.keep {}) = some (a, h'.keep diary)) ∧
      ∀ p, (cellAt h.promises p).Reacts p diary.log (cellAt h'.promises p) := by
  have hl : Legal (watching (κ := κ) h.user h.promises) (fun _ => 0) fun _ => none :=
    fun _ hne => absurd rfl hne
  have htwin : h.Twin (watching h.user h.promises) (fun _ => none) (h.keep {}) :=
    { promises := rfl, queue := rfl, scheduled := rfl, tasks := rfl, inPass := rfl, size := rfl
      requests := fun r q q' hq hq' => by
        cases hq.symm.trans hq'
        exact .refl q
      state := ⟨rfl, .refl _⟩, journal := rfl }
  have hread : ∀ P (s : σ) s', (watching (κ := κ) h.user h.promises).state P s s' → s'.1 = s :=
    fun _ _ _ hs => hs.1
  have hwrite : ∀ P (s : σ) s' t, (watching (κ := κ) h.user h.promises).state P s s' →
      (watching h.user h.promises).state P t (t, s'.2) := fun _ _ _ _ hs => ⟨rfl, hs.2⟩
  have hscript : Tracks (watching h.user h.promises) (fun _ => 0) (fun _ => none) Eq
      (script.run (perform user n)) fun m => script.kept.run (watch user m) :=
    Mirrors.kept hread hwrite ((Mirrors.watched h.user user n h.promises).asks hl) script
  obtain ⟨N, _, ended, hrun', rfl, ht⟩ :=
    (hscript h hrun).2 _ htwin (fun _ hpos => nomatch hpos) fun _ _ => id
  have hended : ended = h'.keep ended.user.2 := by
    rw [keep, ← ht.state.1]
    exact ht.eq_withUser rfl rfl rfl
  rw [hended] at hrun'
  exact ⟨N, ended.user.2, hrun', fun p => (ht.state.2 p).reacts⟩

end Host

/-! ## Reactions that settle and register -/

namespace Echoing

/-- The code `0` settles the promise once more and registers a pair, and the code `1` reads the
promise. -/
def user : UserCode Nat Unit where
  render _ _ _ := .done (.ready .null)
  load _ := .done (.ready .null)
  toModel _ := .done .null
  await _ _ _ := .done ()
  react code :=
    if code.code = 0 then
      .call (.settle ⟨0⟩ (.error (.thrown "late"))) fun _ =>
        .call (.subscribe ⟨0⟩ (.user ⟨2, .empty⟩) (.user ⟨3, .empty⟩)) fun _ => .done ()
    else if code.code = 1 then .call (.status ⟨0⟩) fun _ => .done ()
    else .done ()
  metadata _ _ := .done (.ok .null)
  destination _ _ := .done .pass

def script : Script Nat Unit Unit :=
  .call .newPromise fun _ =>
    .call (.subscribe ⟨0⟩ (.user ⟨0, .empty⟩) (.user ⟨3, .empty⟩)) fun _ =>
      .call (.subscribe ⟨0⟩ (.user ⟨1, .empty⟩) (.user ⟨3, .empty⟩)) fun _ =>
        .call (.settle ⟨0⟩ (.ok .null)) fun _ => .done ()

end Echoing

namespace Host

/-- The promise is fulfilled, the reactions that wait are called, and one of them has another called
at once. -/
theorem reactions_once_echoing :
    ∃ (h : Host Nat Unit) (N : Nat) (diary : Diary Nat),
      Echoing.script.run (perform Echoing.user 20) (fresh () #[]) = some ((), h) ∧
      (∀ m ≥ N, Echoing.script.kept.run (watch Echoing.user m) ((fresh () #[]).keep {}) =
        some ((), h.keep diary)) ∧
      (cellAt h.promises ⟨0⟩).status matches .settled (.ok .null) ∧
      ∀ p, (cellAt (fresh () #[]).promises p).Reacts p diary.log (cellAt h.promises p) := by
  have hended : (Echoing.script.run (perform Echoing.user 20) (fresh () #[])).any fun ended =>
      (cellAt ended.2.promises ⟨0⟩).status matches .settled (.ok .null) := by decide +kernel
  obtain ⟨⟨⟨⟩, h⟩, hrun, hfulfilled⟩ := (Option.any_eq_true _ _).mp hended
  obtain ⟨N, diary, hwatched, hreacts⟩ := reactions_once Echoing.user Echoing.script hrun
  exact ⟨h, N, diary, hrun, hwatched, hfulfilled, hreacts⟩

end Host
end TreeStream
