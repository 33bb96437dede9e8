import TreeStream.Proofs.Meanwhile
import TreeStream.Proofs.TwinWalks

/-!
# Passes over twins

A segment is tried alike on both sides: layers that only one side has to take off are taken off
while the segment is being tried, and every layer that user code is asked about is reached on both
sides. So passes lead from twins to twins, and with them every call of the host.
-/

namespace TreeStream

variable {κ σ σ' : Type}

namespace Host

/-- Advances the value of a segment and serializes what comes out. -/
def carry (user : UserCode κ σ) (call : (c : HostCall κ) → HostM κ σ c.Reply) (r : RequestId)
    (s : SegmentId) (depth n : Nat) (value : Model κ) : HostM κ σ Unit := do
  match ← advance user call r s n value with
  | none => pure ()
  | some value => finish user call r s depth value

section
variable (user : UserCode κ σ) (call : (c : HostCall κ) → HostM κ σ c.Reply) (r : RequestId)
  (s : SegmentId) (depth n : Nat)

theorem carry_element (e : Element κ (Model κ)) :
    carry user call r s depth (n + 1) (.element e) = (do
      modifySegment r s fun seg => { seg with query := .model (.element e) }
      match ← Serializer.resolveElement (codeEffects user call r) e with
      | .ready next => carry user call r s depth n next
      | .suspended t => waitFor user call r s t
      | .failed error => failSegment r s error) := by
  unfold carry
  rw [advance, bind_assoc]
  refine bind_congr fun _ => ?_
  rw [bind_assoc]
  refine bind_congr fun outcome => ?_
  cases outcome with
  | ready next => rfl
  | suspended t => simp only [bind_assoc, pure_bind, bind_pure_unit]
  | failed e => simp only [bind_assoc, pure_bind, bind_pure_unit]

theorem carry_passes {e : Element κ (Model κ)} (he : e.renderable.passes = true) :
    carry user call r s depth (n + 1) (.element e) = (do
      modifySegment r s fun seg => { seg with query := .model (.element e) }
      carry user call r s depth n e.content) := by
  rw [carry_element, Serializer.resolveElement, Serializer.resolveRenderable_passes he]
  rfl

theorem carry_value {v : Model κ} (hv : v.isElement = false) :
    carry user call r s depth (n + 1) v = finish user call r s depth v := by
  cases v with
  | element e => cases hv
  | _ => rfl

/-- Looking at a segment changes nothing, so a try goes on with the segment that was looked at. -/
theorem tryOpen_carry : tryOpen user call r s n = (do
    let seg ← segment r s
    if seg.completed then pure () else
      match ← runQuery user call r seg.query with
      | .suspended t => waitFor user call r s t
      | .failed e => failSegment r s e
      | .ready value => carry user call r s n n value) := by
  funext h
  rw [tryOpen]
  cases hseg : segment r s h with
  | none => rw [run_bind, run_bind, hseg, Option.bind_none, Option.bind_none]
  | some p =>
    obtain ⟨seg, h₁⟩ := p
    obtain ⟨q, -, -, rfl⟩ := segment_of_run hseg
    rw [run_bind, run_bind, hseg, Option.bind_some, Option.bind_some]
    cases seg.completed with
    | true => rfl
    | false =>
      rw [if_neg Bool.false_ne_true, if_neg Bool.false_ne_true, trySegment, run_bind, hseg]
      rfl

end

theorem run_onHeld {α : Type} {h : Host κ σ} {r : RequestId} {q : Request κ}
    (hq : h.requests[r.index]? = some q) (m : HostM κ σ α) :
    onHeld r m h =
      if q.held then (running r m h).map fun p => (some p.1, p.2) else some (none, h) := by
  simp only [onHeld, run_bind, run_get, Option.bind_some, hq]
  cases q.held with
  | false => rfl
  | true => exact (Option.map_eq_bind (f := _)).symm

theorem run_onHeld_missing {α : Type} {h : Host κ σ} {r : RequestId}
    (hq : h.requests[r.index]? = none) (m : HostM κ σ α) : onHeld r m h = some (none, h) := by
  simp only [onHeld, run_bind, run_get, Option.bind_some, hq]
  rfl

end Host

section
variable {T : Twinning κ σ σ'} {calls : RequestId → Nat} {tried : Tried} {r : RequestId}

/-- What is legal stays so while one call more is under way. -/
theorem Legal.more (hl : Legal T calls tried) :
    Legal T (Function.update calls r (calls r + 1)) tried := by
  intro r' hne
  obtain ⟨hw, hpos⟩ := hl r' hne
  by_cases hr : r' = r
  · subst hr
    exact ⟨hw, by rw [Function.update_self]; exact Nat.succ_pos _⟩
  · exact ⟨hw, by rwa [Function.update_of_ne hr]⟩

theorem Legal.nested_more (hl : Legal T calls tried) :
    tried r ≠ none → 1 < Function.update calls r (calls r + 1) r := fun hne => by
  rw [Function.update_self]
  exact Nat.succ_lt_succ (hl r hne).2

end

namespace Mirrors

open Host

variable {T : Twinning κ σ σ'} {calls : RequestId → Nat} {tried tried' : Tried} {r : RequestId}
  {s : SegmentId} {user : UserCode κ σ} {user' : UserCode κ σ'}
  {call : (c : HostCall κ) → HostM κ σ c.Reply}
  {call' : Nat → (c : HostCall κ) → HostM κ σ' c.Reply}

section
variable (U : TwinUsers T user user' call call') (hl : Legal T calls tried)
include U hl

/-- A layer that user code is asked about, or that stands for itself, is reached on both sides. -/
theorem carry_layer (hnone : tried r = none) {depth n j : Nat}
    (hn : ∀ (j : Nat) {v v' : Model κ}, Model.Alike T.wraps v v' →
      Mirrors T calls (T.trying tried r s) tried Eq (Host.carry user call r s depth n v)
        fun m => Host.carry user' (call' m) r s m (m - j) v')
    {e e' : Element κ (Model κ)} (he : Model.Alike T.wraps (.element e) (.element e'))
    (houtcome : Tracks T calls tried (Resolution.Alike T.wraps)
      (Serializer.resolveElement (codeEffects user call r) e)
      fun m => Serializer.resolveElement (codeEffects user' (call' m) r) e') :
    Mirrors T calls (T.trying tried r s) tried Eq
      (Host.carry user call r s depth (n + 1) (.element e))
      fun m => Host.carry user' (call' m) r s m (m - j) (.element e') := by
  refine step (g := fun m d => Host.carry user' (call' m) r s m d (.element e')) ?_
  simp only [carry_element]
  refine bind_eq (modifySegment hnone fun seg seg' hseg => ?_) fun _ => ?_
  · exact ⟨hseg.id, hseg.completed, fun _ => .model he⟩
  refine bind (fun outcome => ⟨outcome, .refl outcome⟩) houtcome fun _ _ h => ?_
  cases h with
  | ready hv => exact of_twins (hn (j + 1) hv) fun h h' ht => ht.trying hnone
  | suspended t => exact waitFor U hl s t
  | failed e => exact of_twins (failSegment hnone e) fun h h' ht => ht.trying hnone

theorem runQuery {query query' : Query κ} (hquery : Query.Alike T.wraps query query') :
    Tracks T calls tried (Resolution.Alike T.wraps) (Host.runQuery user call r query)
      fun m => Host.runQuery user' (call' m) r query' := by
  cases hquery with
  | model hv => exact pure (.ready hv)
  | load code => exact Yields.load U hl code

variable (hpos : 0 < calls r)
include hpos

theorem finish (hnone : tried r = none) (n : Nat) {v v' : Model κ} (hv : Model.Alike T.wraps v v') :
    Mirrors T calls (T.trying tried r s) tried Eq (Host.finish user call r s n v)
      fun m => Host.finish user' (call' m) r s m v' := by
  refine request fun q q' htwin => ?_
  obtain ⟨segments, strict, hstrict, -⟩ := htwin
  have hwalk := WalksAlike.all U (hl.trying (s := s) hpos) hpos hstrict n
  have htext : Yields T calls (T.trying tried r s) Eq
      (Serializer.serialize (codeEffects user call r) (context user call r q.settings.strict) n v)
      fun m => Serializer.serialize (codeEffects user' (call' m) r)
        (context user' (call' m) r strict) m v' := by
    refine Yields.bind_eq (hwalk 0 hv (fun hw => ?_) "" false) fun j => Yields.pure rfl
    rw [hw] at hv
    rw [hv.eq_of_not]
  refine Mirrors.bind (fun result => ⟨result, .refl result⟩) htext fun _ _ h => ?_
  cases h with
  | ok htext =>
    subst htext
    exact completeSegment hnone _
  | error e => exact failSegment hnone e
  | refusal hw he he' => exact failSegment_spoiling hw he

theorem carry (hnone : tried r = none) (depth n j : Nat) {v v' : Model κ}
    (hv : Model.Alike T.wraps v v') :
    Mirrors T calls (T.trying tried r s) tried Eq (Host.carry user call r s depth n v)
      fun m => Host.carry user' (call' m) r s m (m - j) v' := by
  induction n generalizing j v v' with
  | zero => exact failure
  | succ n ih =>
    have hend : ∀ {w w' : Model κ} (j : Nat), w.isElement = false → w'.isElement = false →
        Model.Alike T.wraps w w' →
        Mirrors T calls (T.trying tried r s) tried Eq (Host.carry user call r s depth (n + 1) w)
          fun m => Host.carry user' (call' m) r s m (m - j) w' := by
      intro w w' j hw hw' hwalike
      refine step (g := fun m d => Host.carry user' (call' m) r s m d w') ?_
      simp only [carry_value _ _ _ _ _ _ hw, carry_value _ _ _ _ _ _ hw']
      exact finish U hl hpos hnone depth hwalike
    induction hv generalizing j with
    | refl v =>
      cases v with
      | element e =>
        exact carry_layer U hl hnone (fun j _ _ => ih j) (.refl _)
          (Yields.resolveElement U hl e)
      | _ => exact hend j rfl rfl (.refl _)
    | inside hw he h =>
      rw [carry_passes _ _ _ _ _ _ he]
      exact setQuery_left hw _ (ih j h)
    | @outside e v hw he _ ihv =>
      refine step (g := fun m d => Host.carry user' (call' m) r s m d (.element e)) ?_
      simp only [carry_passes _ _ _ _ _ _ he]
      exact setQuery_right hw _ (ihv (j + 1))
    | array hlength h => exact hend j rfl rfl (.array hlength h)
    | record hkeys h => exact hend j rfl rfl (.record hkeys h)
    | host hx hkeys h =>
      exact carry_layer U hl hnone (fun j _ _ => ih j) (.host hx hkeys h)
        (Yields.resolveHost hx hkeys h _)

theorem tryOpen (hnone : tried r = none) (n : Nat) : Tracks T calls tried Eq
    (Host.tryOpen user call r s n) fun m => Host.tryOpen user' (call' m) r s m := by
  simp only [tryOpen_carry]
  refine segment fun seg seg' hseg => ?_
  rw [hseg.completed]
  refine ite (fun _ => pure rfl) fun hopen => ?_
  have hquery : Query.Alike T.wraps seg.query seg'.query := by
    refine hseg.query fun _ => ⟨Bool.eq_false_iff.mpr hopen, fun hs => ?_⟩
    cases hnone.symm.trans hs
  refine bind (fun outcome => ⟨outcome, .refl outcome⟩) (runQuery U hl hquery) fun _ _ h => ?_
  cases h with
  | ready hv =>
    exact of_twins (carry U hl hpos hnone n n 0 hv) fun h h' ht => ht.trying hnone
  | suspended t => exact waitFor U hl s t
  | failed e => exact of_twins (failSegment hnone e) fun h h' ht => ht.trying hnone

theorem retry (hnone : tried r = none) (n : Nat) : Tracks T calls tried Eq
    (Host.retry user call r s n) fun m => Host.retry user' (call' m) r s m :=
  tell (bind_eq (tryOpen U hl hpos hnone n) fun _ => record _)

end

/-- A pass that begins while the segment of an outer try is behind is nested, which spoils the
twins. -/
theorem began {β β' : Type} {S : β → β' → Prop} {k : HostM κ σ β} {k' : Nat → HostM κ σ' β'}
    (hl : Legal T calls tried) (hnested : tried r ≠ none → 1 < calls r)
    (hsteady : ∀ ⦃h b h₁⦄, k h = some (b, h₁) → h.Steady h₁)
    (hk : tried r = none → Mirrors T calls tried tried' S k k') :
    Mirrors T calls tried tried' S
      (do
        Host.record (.began r (1 < (← Host.request r).running))
        k)
      (fun n => do
        Host.record (.began r (1 < (← Host.request r).running))
        k' n) := by
  intro h₀ b h₁ hrun
  obtain ⟨⟨q, h⟩, hreq, hrest⟩ := Option.bind_eq_some_iff.mp hrun
  obtain ⟨hq, rfl⟩ := request_of_run hreq
  have hk₁ : k (h.tell (.began r (1 < q.running))) = some (b, h₁) := hrest
  refine ⟨(Steady.tell h _).trans (hsteady hk₁), fun h' ht hb hu => ?_⟩
  by_cases hnone : tried r = none
  · obtain ⟨q', hq', ⟨segments, strict, -, -⟩⟩ := ht.request hq
    obtain ⟨N, b', h₁', hrun', hb', ht₁⟩ :=
      (hk hnone _ hk₁).2 _ (ht.tell (.began r (1 < q.running))) (hb.steady (.tell h _)) hu
    refine ⟨N, b', h₁', fun n hn => ?_, hb', ht₁⟩
    change (Host.request r h').bind (fun p => _) = _
    rw [run_request hq', Option.bind_some]
    exact hrun' n hn
  · obtain ⟨q', hq', hle⟩ := hb r (hl r hnone).2
    cases hq.symm.trans hq'
    have htold : Event.began r (1 < q.running) ∈ h₁.journal :=
      (hsteady hk₁).journal.subset List.mem_cons_self
    rw [decide_eq_true (lt_of_lt_of_le (hnested hnone) hle)] at htold
    exact absurd (T.nested (hl r hnone).1 r) (hu _ htold)

theorem takePinged : Tracks T calls tried Eq (Host.takePinged r : HostM κ σ (List SegmentId))
    fun _ => (Host.takePinged r : HostM κ σ' (List SegmentId)) :=
  request_same fun _ _ _ => update (by exact fun _ _ _ => ⟨rfl, rfl, rfl, rfl⟩) (pure rfl)

section
variable (U : TwinUsers T user user' call call')
include U

theorem tryBatch (hl : Legal T calls tried) (hpos : 0 < calls r) (hnone : tried r = none)
    (n : Nat) :
    Tracks T calls tried Eq
      (do
        let batch ← Host.takePinged r
        batch.forM fun s => Host.retry user call r s n
        if (← Host.request r).flowing then Host.flush user call r n else Pure.pure (.ok ()))
      (fun m => do
        let batch ← Host.takePinged r
        batch.forM fun s => Host.retry user' (call' m) r s m
        if (← Host.request r).flowing then Host.flush user' (call' m) r m
        else Pure.pure (.ok ())) := by
  refine bind_eq takePinged fun batch => ?_
  refine bind_eq (forM (fun s => retry U hl hpos hnone n) batch) fun _ => ?_
  exact request_same fun _ _ _ => ite (fun _ => flush U hl n) fun _ => pure rfl

theorem tryPinged (hl : Legal T calls tried) (hpos : 0 < calls r)
    (hnested : tried r ≠ none → 1 < calls r) (n : Nat) : Tracks T calls tried Eq
      (Host.tryPinged user call r n) fun m => Host.tryPinged user' (call' m) r m := by
  refine began hl hnested (fun h b h₁ hrun => ?_) fun hnone => tryBatch U hl hpos hnone n
  have hfree : Legal T calls fun _ => none := fun _ hne => absurd rfl hne
  exact (tryBatch U hfree hpos rfl n h hrun).1

theorem pass (hl : Legal T calls tried) (hpos : 0 < calls r)
    (hnested : tried r ≠ none → 1 < calls r) (n : Nat) : Tracks T calls tried Eq
      (Host.pass user call r n) fun m => Host.pass user' (call' m) r m := by
  refine get fun h h' hlooks => ?_
  rw [hlooks.inPass]
  have hmark : ∀ mark : Bool, Tracks T calls tried Eq
      (modify fun h => { h with inPass := mark } : HostM κ σ Unit)
      fun _ => (modify fun h => { h with inPass := mark } : HostM κ σ' Unit) := fun mark =>
    change (fun _ => .of_eq rfl rfl) fun _ _ ht => { ht with inPass := rfl }
  refine bind_eq (hmark true) fun _ => bind_eq (tryPinged U hl hpos hnested n) fun result => ?_
  exact bind_eq (hmark h.inPass) fun _ => pure rfl

theorem queuedPass (hl : Legal T calls tried) (n : Nat) : Tracks T calls tried Eq
    (Host.queuedPass user call r n) fun m => Host.queuedPass user' (call' m) r m := by
  intro h a h₁ hrun
  cases hq : h.requests[r.index]? with
  | none =>
    rw [Host.queuedPass, run_running] at hrun
    obtain ⟨⟨u, h₂⟩, hfirst, -⟩ := Option.map_eq_some_iff.mp hrun
    obtain ⟨⟨result, h₃⟩, hpass, -⟩ := Option.bind_eq_some_iff.mp hfirst
    obtain ⟨q, -, hq', -⟩ := pass_of_run hpass
    cases (requests_update_missing hq _).symm.trans hq'
  | some q =>
    refine running_from hq ?_ hrun
    refine bind_eq (pass U hl.more (by simp) hl.nested_more n) fun result => ?_
    cases result with
    | ok u => exact pure rfl
    | error e => exact modifyRequest fun _ _ _ => ⟨rfl, rfl, rfl, rfl⟩

end

/-- An action on a request whose handle is held, while one call more on it is under way. -/
theorem onHeld {α : Type} {m : HostM κ σ α} {m' : Nat → HostM κ σ' α}
    (hm : Tracks T (Function.update calls r (calls r + 1)) tried Eq m m') :
    Tracks T calls tried Eq (Host.onHeld r m) fun n => Host.onHeld r (m' n) := by
  intro h a h₁ hrun
  cases hq : h.requests[r.index]? with
  | none =>
    rw [run_onHeld_missing hq] at hrun
    cases hrun
    refine ⟨.refl h, fun h' ht _ _ => ⟨0, none, h', fun n _ => ?_, rfl, ht⟩⟩
    exact run_onHeld_missing (ht.request_missing hq) (m' n)
  | some q =>
    rw [run_onHeld hq] at hrun
    cases hheld : q.held with
    | false =>
      rw [hheld] at hrun
      cases hrun
      refine ⟨.refl h, fun h' ht _ _ => ⟨0, none, h', fun n _ => ?_, rfl, ht⟩⟩
      obtain ⟨_, hq', ⟨segments, strict, -, -⟩⟩ := ht.request hq
      refine (run_onHeld hq' (m' n)).trans ?_
      rw [show (q.twin segments strict).held = false from hheld]
      rfl
    | true =>
      rw [hheld] at hrun
      obtain ⟨⟨b, h₂⟩, hinner, hend⟩ := Option.map_eq_some_iff.mp hrun
      cases hend
      obtain ⟨hsteady, hmatch⟩ := running_from hq hm hinner
      refine ⟨hsteady, fun h' ht hb hu => ?_⟩
      obtain ⟨N, b', h₁', hrun', rfl, ht₁⟩ := hmatch h' ht hb hu
      refine ⟨N, some b, h₁', fun n hn => ?_, rfl, ht₁⟩
      obtain ⟨_, hq', ⟨segments, strict, -, -⟩⟩ := ht.request hq
      refine (run_onHeld hq' (m' n)).trans ?_
      rw [show (q.twin segments strict).held = true from hheld, if_pos rfl]
      exact congrArg (Option.map _) (hrun' n hn)

end Mirrors
end TreeStream
